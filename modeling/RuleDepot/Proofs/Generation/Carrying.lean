import RuleDepot.Proofs.Generation.Repeating
/-!
What collectors come to beside each other.  The directories of the shelves are apart, and a collector
changes files in its own only.  So a collector comes to the same whether another one was finalized before
it or not; the two have at most one directory in common on their ways, which either of them makes if it is
missing.  What all collectors come to, and the files that they leave, are told by what each of them does
alone, in which no order is left.
-/

namespace RuleDepot

open Running RuleDepot.Tree

/-- Two collectors have only the directory of all named shelves in common on their ways. -/
theorem Shelf.along_both {a b : Shelf} {root place : Location} (along : Along root a.trail place)
    (along' : Along root b.trail place) (differ : a ≠ b) :
    (∃ name, b = .extra name) ∧ place = root ++ ["extra"] := by
  obtain ⟨front, filled, within, rfl⟩ := along
  obtain ⟨front', -, within', same⟩ := along'
  obtain rfl : front = front' := List.append_cancel_left same
  obtain ⟨first, rest, rfl⟩ := List.exists_cons_of_ne_nil filled
  -- The common way ends in front of both shelves.
  have short {shelf : Shelf} (part : first :: rest <+: shelf.trail)
      (more : first :: rest ≠ shelf.trail) :
      (∃ name, shelf = .extra name) ∧ first = "extra" ∧ rest = [] := by
    cases shelf with
    | extra name =>
      obtain ⟨rfl, behind⟩ := List.cons_prefix_cons.mp part
      rcases List.prefix_cons_iff.mp behind with rfl | ⟨last, rfl, none⟩
      · exact ⟨⟨name, rfl⟩, rfl, rfl⟩
      · rw [List.prefix_nil.mp none] at more
        exact absurd rfl more
    | _ =>
      obtain ⟨rfl, behind⟩ := List.cons_prefix_cons.mp part
      rw [List.prefix_nil.mp behind] at more
      exact absurd rfl more
  obtain ⟨extra, rfl, rfl⟩ := short within' fun whole => differ (eq_of_within (whole ▸ within)).symm
  exact ⟨extra, rfl⟩

namespace Generation

variable {config : Config} {home workspace : Path} {project : Project} {log : List Scope}
  {shelf other : Shelf} {shelves : List Shelf} {start place : Location} {inner : Location → Prop}
  {s₀ t t' u u' w w' : Tree} {s : Station} {name : String}

/-- Where different things stand in two trees. -/
def Differ (t u : Tree) (place : Location) : Prop :=
  u.node? place ≠ t.node? place

private theorem sameBut_differ (workingDir : u.workingDir = t.workingDir) : SameBut (Differ t u) t u :=
  ⟨workingDir, fun out => not_not.mp out⟩

/-- A station comes to the same over other files.  It changes there what it changes here, and nothing
else; what is changed already is as it would have made it. -/
structure Carried (s : Station) (t u : Tree) : Prop where
  result : (finalizeStation s u).1 = (finalizeStation s t).1
  station : (finalizeStation s u).2.1 = (finalizeStation s t).2.1
  kept : ∀ {place}, ¬ Differ t (filesAfter s t) place → ¬ Differ u (filesAfter s u) place
  done : ∀ {place}, Differ t (filesAfter s t) place →
    (filesAfter s u).node? place = (filesAfter s t).node? place
  agree : ∀ {place}, Differ t (filesAfter s t) place → Differ t u place →
    u.node? place = (filesAfter s t).node? place

private theorem same_of_matches {R : Tree → Tree → Prop}
    (runs : Matches (Step.Paired R) (Collector.finalize (s.collector, t))
      (Collector.finalize (s.collector, u))) :
    (finalizeStation s u).1 = (finalizeStation s t).1 ∧
      (finalizeStation s u).2.1 = (finalizeStation s t).2.1 ∧ R (filesAfter s t) (filesAfter s u) := by
  unfold filesAfter finalizeStation
  generalize Collector.finalize (s.collector, t) = x at runs ⊢
  generalize Collector.finalize (s.collector, u) = y at runs ⊢
  cases runs with
  | @ok _ s₁ s₂ paired | @error _ s₁ s₂ paired =>
    obtain ⟨c₁, t₁⟩ := s₁
    obtain ⟨c₂, t₂⟩ := s₂
    obtain ⟨rfl, related⟩ := paired
    exact ⟨rfl, rfl, related⟩

namespace Carried

/-- A station comes to the same over files that some others changed in two goes, if nothing of the first
one is undone. -/
theorem trans (first : Carried s t u) (second : Carried s u w)
    (between : ∀ {place}, Differ t u place → w.node? place = u.node? place) : Carried s t w where
  result := second.result.trans first.result
  station := second.station.trans first.station
  kept same := second.kept (first.kept same)
  done {place} changed := by
    by_cases still : Differ u (filesAfter s u) place
    · exact (second.done still).trans (first.done changed)
    · have settled := not_not.mp (second.kept still)
      have made : u.node? place = (filesAfter s t).node? place :=
        (not_not.mp still).symm.trans (first.done changed)
      exact settled.trans ((between fun same => changed (made.symm.trans same)).trans made)
  agree {place} changed moved := by
    by_cases early : Differ t u place
    · exact (between early).trans (first.agree changed early)
    · have same : u.node? place = t.node? place := not_not.mp early
      have made := first.done changed
      refine (second.agree (fun none => changed ?_) fun none => moved ?_).trans made
      · exact made.symm.trans (none.trans same)
      · exact none.trans same

private theorem settled (carried : Carried s t u) (moved : Differ t u place) :
    (filesAfter s u).node? place = u.node? place := by
  by_cases changed : Differ t (filesAfter s t) place
  · exact (carried.done changed).trans (carried.agree changed moved).symm
  · exact not_not.mp (carried.kept changed)

/-- If nothing but a directory is there already, the station makes that or leaves it, and does everything
else alike. -/
theorem of_directory (result : (finalizeStation s u).1 = (finalizeStation s t).1)
    (station : (finalizeStation s u).2.1 = (finalizeStation s t).2.1)
    (absent : t.node? place = none) (stands : u.node? place = some .directory)
    (before : ∀ {other}, other ≠ place → u.node? other = t.node? other)
    (stands' : (filesAfter s u).node? place = some .directory)
    (made : (filesAfter s t).node? place ≠ none → (filesAfter s t).node? place = some .directory)
    (after : ∀ {other}, other ≠ place → (filesAfter s u).node? other = (filesAfter s t).node? other) :
    Carried s t u where
  result := result
  station := station
  kept {other} still changed := by
    by_cases own : other = place
    · exact changed (own ▸ stands'.trans stands.symm)
    · exact changed ((after own).trans ((not_not.mp still).trans (before own).symm))
  done {other} changed := by
    by_cases own : other = place
    · subst own
      exact stands'.trans (made fun none => changed (none.trans absent.symm)).symm
    · exact after own
  agree {other} changed moved := by
    by_cases own : other = place
    · subst own
      exact stands.trans (made fun none => changed (none.trans absent.symm)).symm
    · exact absurd (before own) moved

end Carried

/-- A collector changes only what it touches. -/
theorem touches_of_differ (marked : Cache.Marked (Along start shelf.trail) (start ++ shelf.trail) t t')
    (changed : Differ t t' place) : shelf.Touches start place := by
  by_cases holds : Cache.Holds (start ++ shelf.trail) place
  · exact Or.inr holds
  · exact ((marked.elsewhere holds).resolve_left changed).1

/-- What a collector changes on the way to another shelf is the directory of all named shelves, which it
makes. -/
theorem common_of_differ
    (marked : Cache.Marked (Along start other.trail) (start ++ other.trail) t t') (differ : other ≠ shelf)
    (along : Along start shelf.trail place) (changed : Differ t t' place) :
    place <+: start ++ other.trail ∧ (∃ name, shelf = .extra name) ∧ place = start ++ ["extra"] ∧
      t.node? place = none ∧ t'.node? place = some .directory := by
  have free : ¬ Cache.Holds (start ++ other.trail) place := fun holds =>
    Shelf.not_along_of_holds holds differ along
  have along' := (touches_of_differ marked changed).resolve_right free
  obtain ⟨named, rfl⟩ := Shelf.along_both along' along differ
  obtain ⟨front, -, part, same⟩ := along'
  exact ⟨same ▸ (List.prefix_append_right_inj start).mpr part, named, rfl,
    ((marked.elsewhere free).resolve_left changed).2⟩

section Quiet

variable {base root : Path} {trail : List String} (located : Path.Located base trail root)
  (quiet : ∀ place, t.Passes base place ∨ Along (t.lexical base) trail place ∨
    Cache.Holds (t.lexical base ++ trail) place → ¬ Differ t u place)

include located quiet

private theorem avoids_root : Avoids (Differ t u) t root := fun _ passes =>
  quiet _ ((passes_of_continues located.continues (fun s member => (located.solid s member).1)
    passes).imp_right Or.inl)

private theorem avoids_join (named : Path.IsName name) (gives : Cache.Gives name) :
    Avoids (Differ t u) t (root / name) := by
  intro place passes
  rcases passes_join named passes with passes | rfl
  · exact avoids_root located quiet _ passes
  · exact quiet _ (Or.inr (Or.inr (Or.inl ⟨name, gives, by rw [located.lexical]⟩)))

private theorem avoids_lock (a : Artifact) :
    Avoids (Differ t u) t (root / ".locks" / s!"{Naming.stem a.key}.lock") := by
  intro place passes
  rcases passes_join (Naming.isName_lock a.key) passes with passes | rfl
  · exact avoids_join located quiet Cache.isName_locks (Or.inr (Or.inl rfl)) _ passes
  · refine quiet _ (Or.inr (Or.inr (Or.inr ⟨s!"{Naming.stem a.key}.lock", ?_⟩)))
    rw [lexical_join t Cache.isName_locks, located.lexical, List.append_assoc]
    rfl

end Quiet

/-- What stations come to one after another is what each of them comes to alone.  In the end every place is
as a station that changes it makes it, or as it was if none does. -/
structure Alone (t : Tree) (order : List Station) : Prop where
  results : (finalizeAll t order).1 = order.map fun s => (finalizeStation s t).1
  stations : (finalizeAll t order).2.1 = order.map fun s => (finalizeStation s t).2.1
  workingDir : (finalizeAll t order).2.2.workingDir = t.workingDir
  changed : ∀ s ∈ order, ∀ {place}, Differ t (filesAfter s t) place →
    (finalizeAll t order).2.2.node? place = (filesAfter s t).node? place
  still : ∀ {place}, (∀ s ∈ order, ¬ Differ t (filesAfter s t) place) →
    (finalizeAll t order).2.2.node? place = t.node? place

namespace Alone

/-- If those behind do not notice the first station, all come to what they come to alone. -/
theorem cons {rest : List Station} (workingDir : (filesAfter s t).workingDir = t.workingDir)
    (carried : ∀ other ∈ rest, Carried other t (filesAfter s t))
    (alone : Alone (filesAfter s t) rest) : Alone t (s :: rest) where
  results := by
    change (finalizeStation s t).1 :: (finalizeAll (filesAfter s t) rest).1 = _
    rw [alone.results, List.map_cons,
      List.map_congr_left fun other member => (carried other member).result]
  stations := by
    change (finalizeStation s t).2.1 :: (finalizeAll (filesAfter s t) rest).2.1 = _
    rw [alone.stations, List.map_cons,
      List.map_congr_left fun other member => (carried other member).station]
  workingDir := alone.workingDir.trans workingDir
  changed other member {place} changes := by
    change (finalizeAll (filesAfter s t) rest).2.2.node? place = _
    by_cases moved : Differ t (filesAfter s t) place
    · rw [alone.still fun other member => not_not.mpr ((carried other member).settled moved)]
      rcases List.mem_cons.mp member with rfl | inside
      · rfl
      · exact (carried other inside).agree changes moved
    · rcases List.mem_cons.mp member with rfl | inside
      · exact absurd changes moved
      · have done := (carried other inside).done changes
        rw [← done]
        refine alone.changed other inside fun same => changes ?_
        exact done.symm.trans (same.trans (not_not.mp moved))
  still {place} unchanged := by
    obtain ⟨own, others⟩ := List.forall_mem_cons.mp unchanged
    change (finalizeAll (filesAfter s t) rest).2.2.node? place = _
    rw [alone.still fun other member => (carried other member).kept (others other member)]
    exact not_not.mp own

/-- The same stations leave the same files in every order. -/
theorem node?_eq {order order' : List Station} (alone : Alone t order) (alone' : Alone t order')
    (same : ∀ s, s ∈ order' ↔ s ∈ order) (place : Location) :
    (finalizeAll t order').2.2.node? place = (finalizeAll t order).2.2.node? place := by
  by_cases changes : ∃ s ∈ order, Differ t (filesAfter s t) place
  · obtain ⟨s, member, changed⟩ := changes
    rw [alone.changed s member changed, alone'.changed s ((same s).mpr member) changed]
  · have unchanged : ∀ s ∈ order, ¬ Differ t (filesAfter s t) place := fun s member changed =>
      changes ⟨s, member, changed⟩
    rw [alone.still unchanged, alone'.still fun s member => unchanged s ((same s).mp member)]

end Alone

namespace Guarded

variable (guarded : Guarded config home workspace project log start inner s₀)

include guarded

/-- A shelf that can be reached gets its marks on the names that lead there. -/
theorem marked (leads : t.lexical (config.cacheRoot home workspace) = start)
    (enters : t.Enters (config.cacheRoot home workspace)) (rooted : t.Rooted)
    (solid : ∀ s ∈ shelf.trail, Path.IsName s ∧ s.utf8ByteSize ≤ nameLimit) :
    Cache.Marked (Along start shelf.trail) (start ++ shelf.trail) t
      (filesAfter (stationOf config home workspace project log shelf) t) :=
  marked_of_stationOf guarded.digested leads enters rooted project fun s member => (solid s member).1

/-- A collector comes to the same over trees that its requests and its rule file cannot tell apart. -/
theorem same_of_blind {R : Tree → Tree → Prop} (same : t.workingDir = s₀.workingDir)
    (clear : (config.resolver home workspace project).Clear inner t)
    (clear' : (config.resolver home workspace project).Clear inner u) (within : SameBut inner t u)
    (related : R t u)
    (blind : ∀ a : Artifact, a.hash.IsDigest → (∀ place, t.Passes a.source place → ¬ inner place) →
      Cache.Blind R (config.cacheRoot home workspace / shelf.dirName) a)
    (blind' : FileM.Blind R (config.cacheRoot home workspace / shelf.dirName / Cache.ruleFileName)) :
    (finalizeStation (stationOf config home workspace project log shelf) u).1 =
        (finalizeStation (stationOf config home workspace project log shelf) t).1 ∧
      (finalizeStation (stationOf config home workspace project log shelf) u).2.1 =
        (finalizeStation (stationOf config home workspace project log shelf) t).2.1 ∧
      R (filesAfter (stationOf config home workspace project log shelf) t)
        (filesAfter (stationOf config home workspace project log shelf) u) := by
  have root := root_stationOf config home workspace project log shelf
  have planned (plan : Plan) (known : (config.duty shelf).plan t (config.resolver home workspace project)
      ((config.duty shelf).demands log) = .ok plan) := guarded.clear_of_planned same clear known
  rw [← root] at blind blind'
  exact same_of_matches (Collector.finalize_matches related (pending_stationOf log shelf) rfl
    (Cache.supplied_new _ _ _ t) (root ▸ Path.text_join_ne_empty _ (Cache.dirName_ne_empty _))
    (Duty.plan_alike (Resolver.alike_of_clear clear clear' within) _ _)
    (fun plan known request asked => (planned plan known request asked).1)
    (fun plan known request asked => blind request.1 (planned plan known request asked).1
      (planned plan known request asked).2) blind')

/-- What others do elsewhere does not matter to a collector, if they keep to guarded places. -/
theorem carried_of_quiet (same : t.workingDir = s₀.workingDir)
    (leads : t.lexical (config.cacheRoot home workspace) = start)
    (enters : t.Enters (config.cacheRoot home workspace)) (rooted : t.Rooted) (rooted' : u.Rooted)
    (solid : ∀ s ∈ shelf.trail, Path.IsName s ∧ s.utf8ByteSize ≤ nameLimit)
    (clear : (config.resolver home workspace project).Clear inner t)
    (clear' : (config.resolver home workspace project).Clear inner u) (within : SameBut inner t u)
    (quiet : ∀ place, t.Passes (config.cacheRoot home workspace) place ∨ shelf.Touches start place →
      ¬ Differ t u place) :
    Carried (stationOf config home workspace project log shelf) t u := by
  have located := Shelf.located (config.cacheRoot home workspace) solid
  have quiet' := leads.symm ▸ quiet
  obtain ⟨result, station, agrees, -⟩ := guarded.same_of_blind
    (R := fun v w => SameBut (Differ t u) v w ∧ v.workingDir = t.workingDir) same clear clear' within
    ⟨sameBut_differ within.workingDir, rfl⟩
    (fun a digest apart => by
      have source : Avoids (Differ t u) t a.source := fun place passes changed =>
        changed (within.node (apart place passes))
      refine Cache.blind_of_avoids digest (avoids_lock located quiet' a)
        (fun name candidate => ?_) fun {v w} agree begins bytes => ?_
      · obtain ⟨named, dash⟩ := Naming.isName_candidate digest candidate
        exact avoids_join located quiet' named (Or.inr (Or.inr dash))
      · rw [agree.read_eq (source.congr begins)])
    (by
      refine FileM.blind_of_avoids
        (avoids_join located quiet' Cache.isName_ruleFileName (Or.inl rfl)) ?_
      obtain ⟨q, known, -⟩ := parent?_join (d := config.cacheRoot home workspace / shelf.dirName) t
        Cache.isName_ruleFileName
      simp [known])
  have enters' : u.Enters (config.cacheRoot home workspace) :=
    enters.of_passed within.workingDir fun passes =>
      (not_not.mp (quiet _ (Or.inl passes))).trans (enters.directory passes)
  have leads' := (lexical_congr within.workingDir (config.cacheRoot home workspace)).trans leads
  have marked := guarded.marked leads enters rooted solid
  have marked' := guarded.marked leads' enters' rooted' solid
  refine ⟨result, station, fun {place} still moved => ?_, fun {place} changed => ?_,
    fun {place} changed moved => ?_⟩
  · have out := quiet place (Or.inr (touches_of_differ marked' moved))
    exact moved ((agrees.node out).trans ((not_not.mp still).trans (not_not.mp out).symm))
  · exact agrees.node (quiet place (Or.inr (touches_of_differ marked changed)))
  · exact (quiet place (Or.inr (touches_of_differ marked changed)) moved).elim

/-- It does not matter to the collector of a named shelf either whether the directory of all of these is
there already. -/
theorem carried_of_made (same : t.workingDir = s₀.workingDir)
    (leads : t.lexical (config.cacheRoot home workspace) = start)
    (enters : t.Enters (config.cacheRoot home workspace)) (rooted : t.Rooted)
    (solid : ∀ s ∈ (Shelf.extra name).trail, Path.IsName s ∧ s.utf8ByteSize ≤ nameLimit)
    (shared : Shared t.workingDir (config.cacheRoot home workspace) "extra" t u)
    (clear : (config.resolver home workspace project).Clear inner t)
    (clear' : (config.resolver home workspace project).Clear inner u) :
    Carried (stationOf config home workspace project log (.extra name)) t u := by
  have located := Shelf.located (config.cacheRoot home workspace) solid
  have own : inner (start ++ ["extra"]) :=
    guarded.within (.extra name) _ (Or.inl ⟨["extra"], by simp, ⟨[name], rfl⟩, rfl⟩)
  have within : SameBut inner t u :=
    ⟨shared.sameBut.workingDir, fun {place} out => shared.sameBut.node fun here =>
      out (by rw [here, leads]; exact own)⟩
  obtain ⟨result, station, related⟩ := guarded.same_of_blind
    (R := fun v w => w = v ∨ Shared t.workingDir (config.cacheRoot home workspace) "extra" v w) same
    clear clear' within (Or.inr shared)
    (fun a digest apart => by
      refine Cache.blind_of_shared digest located.continues located.solid
        fun {v w} shared' place passes here => ?_
      have leads' := (lexical_congr shared'.workingDir (config.cacheRoot home workspace)).trans leads
      refine apart place ((passes_congr shared'.workingDir _ _).mp passes) ?_
      rw [here, leads']
      exact own)
    (by
      refine FileM.blind_of_shared (located.continues.join located.filled
        (fun s member => (located.solid s member).1) Cache.isName_ruleFileName) fun s member => ?_
      rcases List.mem_append.mp member with member | member
      · exact located.solid s member
      · exact List.mem_singleton.mp member ▸ ⟨Cache.isName_ruleFileName, by decide⟩)
  have marked := guarded.marked leads enters rooted solid
  have marked' := guarded.marked ((shared.lexical _).trans leads) shared.enters_other
    shared.rooted_other solid
  have leads' := (marked.lexical (config.cacheRoot home workspace)).trans leads
  have stands : u.node? (start ++ ["extra"]) = some .directory := by rw [shared.node?, leads, if_pos rfl]
  have stands' := marked'.directory stands
  refine .of_directory result station (leads ▸ shared.absent) stands (fun other => ?_) stands'
    (fun made => ?_) fun other => ?_
  · rw [shared.node?, leads, if_neg other]
  · rcases related with same | shared'
    · rwa [same] at stands'
    · exact absurd (leads' ▸ shared'.absent) made
  · rcases related with same | shared'
    · rw [same]
    · rw [shared'.node?, leads', if_neg other]

/-- A collector of a named shelf comes to the same after another one, which made the directory of all of
these.  So one first thinks of that directory alone, and then of what else the other one did. -/
theorem carried_of_common (same : t.workingDir = s₀.workingDir)
    (leads : t.lexical (config.cacheRoot home workspace) = start)
    (enters : t.Enters (config.cacheRoot home workspace)) (rooted : t.Rooted)
    (solid : ∀ s ∈ (Shelf.extra name).trail, Path.IsName s ∧ s.utf8ByteSize ≤ nameLimit)
    (differ : other ≠ .extra name)
    (clear : (config.resolver home workspace project).Clear inner t)
    (clear' : (config.resolver home workspace project).Clear inner u)
    (marked : Cache.Marked (Along start other.trail) (start ++ other.trail) t u)
    (way : start ++ ["extra"] <+: start ++ other.trail) (absent : t.node? (start ++ ["extra"]) = none)
    (made : u.node? (start ++ ["extra"]) = some .directory) :
    Carried (stationOf config home workspace project log (.extra name)) t u := by
  obtain ⟨v, inserted⟩ : ∃ v, v = t.insert (start ++ ["extra"]) .directory := ⟨_, rfl⟩
  have shared : Shared t.workingDir (config.cacheRoot home workspace) "extra" t v :=
    ⟨rfl, rooted, enters, leads.symm ▸ absent, leads.symm ▸ inserted⟩
  have own : v.node? (start ++ ["extra"]) = some .directory := by rw [shared.node?, leads, if_pos rfl]
  have others {place : Location} (elsewhere : place ≠ start ++ ["extra"]) :
      v.node? place = t.node? place := by rw [shared.node?, leads, if_neg elsewhere]
  have within := guarded.sameBut marked
  have grown : Grown (fun _ _ => True) v u := by
    refine ⟨within.workingDir.trans shared.sameBut.workingDir.symm, fun {place node} stands => ?_,
      fun _ _ => trivial⟩
    by_cases there : place = start ++ ["extra"]
    · rw [there] at stands ⊢
      exact made.trans (own.symm.trans stands)
    · rw [others there] at stands
      refine marked.kept (fun holds => ?_) stands
      have below := way.trans (Shelf.below_of_holds holds)
      rw [Rooted.absent_below rooted (by simp [absent]) below (Ne.symm there)] at stands
      cases stands
  have between := Resolver.Clear.before clear' grown
  have inside : inner (start ++ ["extra"]) :=
    guarded.within (.extra name) _ (Or.inl ⟨["extra"], by simp, ⟨[name], rfl⟩, rfl⟩)
  have within' : SameBut inner v u := ⟨grown.workingDir, fun {place} out => by
    rw [others fun there => out (by rw [there]; exact inside)]
    exact within.node out⟩
  have first := guarded.carried_of_made same leads enters rooted solid shared clear between
  refine first.trans (guarded.carried_of_quiet (shared.sameBut.workingDir.trans same)
    ((shared.lexical _).trans leads) shared.enters_other shared.rooted_other marked.rooted solid between
    clear' within' fun place touches moved => ?_) fun {place} early => ?_
  · have there : place ≠ start ++ ["extra"] := by
      rintro rfl
      exact moved (made.trans own.symm)
    have moved' : Differ t u place := fun still => moved (still.trans (others there).symm)
    rcases touches with passes | along | holds
    · have stands := shared.enters_other.directory passes
      exact moved ((grown.kept stands).trans stands.symm)
    · exact there (common_of_differ marked differ along moved').2.2.1
    · exact (touches_of_differ marked moved').not_holds differ holds
  · have there : place = start ++ ["extra"] := not_not.mp fun elsewhere => early (others elsewhere)
    rw [there, made, own]

/-- **A collector does not notice another one.**  After another collector has been finalized, whatever it
came to, a collector comes to the same and does the same to the files. -/
theorem carried (same : t.workingDir = s₀.workingDir)
    (leads : t.lexical (config.cacheRoot home workspace) = start)
    (enters : t.Enters (config.cacheRoot home workspace)) (rooted : t.Rooted)
    (solid : ∀ s ∈ shelf.trail, Path.IsName s ∧ s.utf8ByteSize ≤ nameLimit)
    (solid' : ∀ s ∈ other.trail, Path.IsName s ∧ s.utf8ByteSize ≤ nameLimit) (differ : other ≠ shelf)
    (clear : (config.resolver home workspace project).Clear inner t)
    (clear' : (config.resolver home workspace project).Clear inner
      (filesAfter (stationOf config home workspace project log other) t)) :
    Carried (stationOf config home workspace project log shelf) t
      (filesAfter (stationOf config home workspace project log other) t) := by
  have marked := guarded.marked leads enters rooted solid'
  by_cases common : ∃ place, Along start shelf.trail place ∧
      Differ t (filesAfter (stationOf config home workspace project log other) t) place
  · obtain ⟨place, along, changed⟩ := common
    obtain ⟨way, ⟨name, rfl⟩, rfl, absent, made⟩ := common_of_differ marked differ along changed
    exact guarded.carried_of_common same leads enters rooted solid differ clear clear' marked way absent
      made
  · refine guarded.carried_of_quiet same leads enters rooted marked.rooted solid clear clear'
      (guarded.sameBut marked) fun place touches changed => ?_
    rcases touches with passes | along | holds
    · have stands := enters.directory passes
      exact changed ((marked.directory stands).trans stands.symm)
    · exact common ⟨place, along, changed⟩
    · exact (touches_of_differ marked changed).not_holds differ holds

/-- Collectors of several shelves come to what each of them comes to alone.  The induction is on the
shelves, over the files that the first one leaves. -/
theorem alone (same : t.workingDir = s₀.workingDir)
    (leads : t.lexical (config.cacheRoot home workspace) = start)
    (enters : t.Enters (config.cacheRoot home workspace)) (rooted : t.Rooted) (nodup : shelves.Nodup)
    (solid : ∀ shelf ∈ shelves, ∀ s ∈ shelf.trail, Path.IsName s ∧ s.utf8ByteSize ≤ nameLimit)
    (clear : ∀ u ∈ stages t (shelves.map (stationOf config home workspace project log)),
      (config.resolver home workspace project).Clear inner u) :
    Alone t (shelves.map (stationOf config home workspace project log)) := by
  induction shelves generalizing t with
  | nil => exact ⟨rfl, rfl, rfl, fun _ none => (by cases none), fun _ => rfl⟩
  | cons shelf rest ih =>
    obtain ⟨own, solid⟩ := List.forall_mem_cons.mp solid
    obtain ⟨others, nodup⟩ := List.nodup_cons.mp nodup
    obtain ⟨here, clear⟩ := List.forall_mem_cons.mp clear
    have marked := guarded.marked leads enters rooted own
    have later := ih (marked.workingDir.trans same) ((marked.lexical _).trans leads)
      (marked.enters enters) marked.rooted nodup solid clear
    refine .cons marked.workingDir (fun s member => ?_) later
    obtain ⟨other, inside, rfl⟩ := List.mem_map.mp member
    exact guarded.carried same leads enters rooted (solid other inside) own
      (fun same => others (same ▸ inside)) here (clear _ (mem_stages _ _))

end Guarded

end Generation

end RuleDepot
