import Mathlib.Data.List.Chain
import RuleDepot.Proofs.Collector.Repeating
import RuleDepot.Proofs.Generation.Shelves
/-!
Where a pass changes files.  A collector touches places on the way to the directory of its shelf and in
it, under names that are its own.  No two shelves have such places in common.  The directories and files
that a pass itself keeps have names that do not follow upon each other on any shelf, so they are not
touched by a collector, wherever the root of the cache is.
-/

namespace RuleDepot

open RuleDepot.Tree

namespace Shelf

variable {a b shelf : Shelf} {root dir place : Location} {x y : String} {inner : Location → Prop}
  {t u : Tree}

/-- The directory of a shelf goes on behind the root of the cache along its trail. -/
theorem continues (root : Path) (named : shelf.IsNamed) :
    Path.Continues root (root / shelf.dirName) shelf.trail := by
  cases shelf with
  | extra name =>
    have first : Path.IsName "extra" := named "extra" List.mem_cons_self
    have second : Path.IsName name := named name (by simp [trail])
    rw [join_extra root second]
    exact (Path.continues_join root first).join (by simp)
      (fun s member => List.mem_singleton.mp member ▸ first) second
  | _ => exact Path.continues_join root (named _ List.mem_cons_self)

theorem trail_ne_nil (shelf : Shelf) : shelf.trail ≠ [] := by
  cases shelf <;> simp [trail]

/-- The directory of a shelf is at the end of its trail. -/
theorem located (root : Path)
    (solid : ∀ s ∈ shelf.trail, Path.IsName s ∧ s.utf8ByteSize ≤ nameLimit) :
    Path.Located root shelf.trail (root / shelf.dirName) where
  continues := continues root fun s member => (solid s member).1
  solid := solid
  filled := shelf.trail_ne_nil
  named := Path.text_join_ne_empty _ (Cache.dirName_ne_empty shelf)

/-- No shelf is on the way to another one. -/
theorem eq_of_within (within : a.trail <+: b.trail) : a = b := by
  refine trail_inj (within.eq_of_length ?_)
  cases a <;> cases b <;> simp [trail, dirName] at within ⊢
  rename_i l _
  cases l <;> simp [Language.text] at within

/-- A name that a trail begins with. -/
def IsHead (s : String) : Prop :=
  ∃ shelf : Shelf, shelf.trail.head? = some s

/-- Names that may follow upon each other below the root of the cache. -/
def Follows (x y : String) : Prop :=
  IsHead x ∨ x = ".locks" ∨ Cache.Gives y

/-- The places that a collector may change: those on the way to its shelf, and those that it keeps
there. -/
def Touches (root : Location) (shelf : Shelf) (place : Location) : Prop :=
  Along root shelf.trail place ∨ Cache.Holds (root ++ shelf.trail) place

/-- What is kept on a shelf is below its directory. -/
theorem below_of_holds (holds : Cache.Holds (root ++ shelf.trail) place) :
    root ++ shelf.trail <+: place := by
  rcases holds with ⟨name, -, rfl⟩ | ⟨name, rfl⟩ <;> exact List.prefix_append _ _

/-- What a collector touches is not kept on another shelf. -/
theorem Touches.not_holds (touches : Touches root a place) (differ : a ≠ b) :
    ¬ Cache.Holds (root ++ b.trail) place := by
  intro holds
  have other := below_of_holds holds
  rcases touches with ⟨front, -, within, rfl⟩ | holds
  · have shorter := (List.prefix_append_right_inj root).mp other
    exact differ (eq_of_within (shorter.trans within)).symm
  · rcases List.prefix_or_prefix_of_prefix (below_of_holds holds) other with within | within
    · exact differ (eq_of_within ((List.prefix_append_right_inj root).mp within))
    · exact differ (eq_of_within ((List.prefix_append_right_inj root).mp within)).symm

/-- What is kept on a shelf is not on the way to another one. -/
theorem not_along_of_holds (holds : Cache.Holds (root ++ a.trail) place) (differ : a ≠ b) :
    ¬ Along root b.trail place := by
  rintro ⟨front, -, within, rfl⟩
  have shorter := (List.prefix_append_right_inj root).mp (below_of_holds holds)
  exact differ (eq_of_within (shorter.trans within))

/-- Below the root, the places that a collector touches have names that may follow upon each other. -/
theorem Touches.names (touches : Touches root shelf place) :
    ∃ names, place = root ++ names ∧ names ≠ [] ∧ (∀ x, names.head? = some x → IsHead x) ∧
      names.IsChain Follows := by
  have begins : ∀ x, shelf.trail.head? = some x → IsHead x := fun x first => ⟨shelf, first⟩
  have filled := shelf.trail_ne_nil
  have chained : ∀ more : List String, more.IsChain Follows →
      (∀ y, more.head? = some y → Cache.Gives y) → (shelf.trail ++ more).IsChain Follows := by
    intro more chain gives
    refine List.IsChain.append ?_ chain fun x _ y next => Or.inr (Or.inr (gives y next))
    cases shelf with
    | extra name => exact .cons_cons (Or.inl (begins _ rfl)) (.singleton _)
    | _ => exact .singleton _
  have later (more : List String) : ∀ x, (shelf.trail ++ more).head? = some x → IsHead x := by
    intro x first
    refine begins x ?_
    rwa [List.head?_append_of_ne_nil _ filled] at first
  rcases touches with ⟨front, more, within, rfl⟩ | ⟨name, gives, rfl⟩ | ⟨name, rfl⟩
  · refine ⟨front, rfl, more, fun x first => begins x ?_, ?_⟩
    · obtain ⟨rest, split⟩ := within
      rwa [← split, List.head?_append_of_ne_nil _ more]
    have whole := chained [] .nil (by simp)
    rw [List.append_nil] at whole
    exact whole.prefix within
  · refine ⟨shelf.trail ++ [name], List.append_assoc .., by simp, later _,
      chained _ (.singleton _) fun y next => ?_⟩
    obtain rfl : name = y := by simpa using next
    exact gives
  · refine ⟨shelf.trail ++ [".locks", name], List.append_assoc .., by simp, later _,
      chained _ (.cons_cons (Or.inr (Or.inl rfl)) (.singleton _)) fun y next => ?_⟩
    obtain rfl : ".locks" = y := by simpa using next
    exact Or.inr (Or.inl rfl)

/-- A name that no trail begins with, and that is not given behind another one. -/
structure Foreign (x y : String) : Prop where
  begins : ¬ IsHead y
  follows : ¬ Follows x y

/-- The names that a pass gives itself are foreign to all shelves. -/
theorem foreign_names :
    Foreign ".buckforge" "gen" ∧ Foreign ".buckforge" "state" ∧ Foreign "state" "STATE" := by
  have unused : ∀ s ∈ [".buckforge", "gen", "state", "STATE"], ¬ IsHead s := by
    rintro s member ⟨shelf, first⟩
    cases shelf with
    | runtime language => cases language <;> cases first <;> revert member <;> decide
    | _ => cases first; revert member; decide
  have ungiven : ∀ s ∈ ["gen", "state", "STATE"], ¬ Cache.Gives s := by
    unfold Cache.Gives
    decide
  have foreign {x y : String} (first : x ∈ [".buckforge", "gen", "state", "STATE"])
      (second : y ∈ ["gen", "state", "STATE"]) : Foreign x y := by
    refine ⟨unused y (List.mem_cons_of_mem _ second), ?_⟩
    rintro (head | rfl | given)
    · exact unused x first head
    · revert first
      decide
    · exact ungiven y second given
  exact ⟨foreign (by decide) (by decide), foreign (by decide) (by decide),
    foreign (by decide) (by decide)⟩

/-- Below foreign names a collector touches something only if the root of the cache is there. -/
theorem Touches.root_of_below (touches : Touches root shelf place) (foreign : Foreign x y)
    (below : dir ++ [x, y] <+: place) : dir ++ [x, y] <+: root := by
  obtain ⟨names, rfl, -, begins, chain⟩ := touches.names
  rcases prefix_append_cases below with above | ⟨part, same, within⟩
  · exact above
  rcases List.eq_nil_or_concat part with rfl | ⟨front, last, rfl⟩
  · rw [List.append_nil] at same
    exact same ▸ List.prefix_rfl
  -- The second name stands below the root, and the first one is in front of it or is no part of it.
  have split : dir ++ [x] ++ [y] = root ++ front ++ [last] := by
    simpa using same
  obtain ⟨heads, lasts⟩ := List.append_inj' split rfl
  obtain rfl : y = last := by simpa using lasts
  rcases List.eq_nil_or_concat front with rfl | ⟨front, last, rfl⟩
  · refine absurd (begins y ?_) foreign.begins
    obtain ⟨rest, rfl⟩ := within
    rfl
  · rw [List.concat_eq_append, ← List.append_assoc] at heads
    obtain rfl : x = last := by simpa using (List.append_inj' heads rfl).2
    have part := chain.prefix within
    simp only [List.concat_eq_append, List.append_assoc, List.singleton_append,
      List.isChain_append_cons_cons] at part
    exact absurd part.2.1 foreign.follows

/-- No collector touches what has foreign names. -/
theorem Touches.ne (touches : Touches root shelf place) (foreign : Foreign x y) :
    place ≠ dir ++ [x, y] := by
  rintro rfl
  obtain ⟨names, same, filled, -⟩ := touches.names
  have shorter := (touches.root_of_below foreign List.prefix_rfl).length_le
  have longer := List.length_pos_iff.mpr filled
  rw [same, List.length_append] at shorter
  omega

end Shelf

namespace Config

variable {config : Config} {home workspace : Path}

/-- The shelves of an accepted configuration have good names, which are short if those are that the
configuration gives. -/
theorem solid_of_check (accepted : config.check = .ok config)
    (short : ∀ name ∈ config.extraCaches.keys, name.utf8ByteSize ≤ nameLimit) :
    ∀ shelf ∈ config.shelves, ∀ s ∈ shelf.trail, Path.IsName s ∧ s.utf8ByteSize ≤ nameLimit := by
  intro shelf member s inside
  refine ⟨isNamed_of_check accepted shelf member s inside, ?_⟩
  cases shelf with
  | extra name =>
    rcases List.mem_cons.mp inside with rfl | inside
    · decide
    · have listed : name ∈ config.extraCaches.keys := by simpa [shelves] using member
      exact List.mem_singleton.mp inside ▸ short name listed
  | runtime language =>
    obtain rfl := List.mem_singleton.mp inside
    cases language <;> decide
  | _ =>
    obtain rfl := List.mem_singleton.mp inside
    decide

/-- The root of the cache is the empty path only together with the workspace. -/
theorem cacheRoot_of_blank (blank : (config.cacheRoot home workspace).text = "") :
    config.cacheRoot home workspace = workspace := by
  have relative : ∀ p : Path, p.text = "" → p.isAbsolute = false := fun p empty => by
    simp [Path.isAbsolute, empty]
  unfold cacheRoot Path.resolveAgainst at blank ⊢
  simp only at blank ⊢
  split at blank
  · rename_i absolute
    rw [relative _ blank] at absolute
    cases absolute
  · rename_i behind
    rw [if_neg behind]
    have none : workspace.text = "" := by
      change (workspace.join _).text = "" at blank
      unfold Path.join at blank
      rw [if_neg behind] at blank
      split at blank <;> simp_all
    exact congrArg Path.mk (blank.trans none.symm)

end Config

namespace Generation

variable {g : Generation} {t t' u : Tree} {place : Location} {shelf : Shelf} {bytes : ByteArray}

/-- The names that a pass gives itself are good ones. -/
theorem isName_own : ∀ s ∈ [".buckforge", "gen", "state", "STATE"], Path.IsName s := by
  intro s member
  simp only [List.mem_cons, List.not_mem_nil, or_false] at member
  rcases member with rfl | rfl | rfl | rfl <;> exact ⟨by decide, by decide, by decide, by decide⟩

/-- The directory for intermediate files is two names behind the workspace. -/
theorem scratchDir_eq (g : Generation) : g.scratchDir = g.workspace / ".buckforge" / "gen" := by
  have text : ".buckforge/gen" = ".buckforge" ++ "/" ++ "gen" := by decide
  have ends : ".buckforge".toList.getLast? = some 'e' := by decide
  rw [scratchDir, text]
  exact Path.join_append g.workspace (by decide) ends (by decide)
      (isName_own "gen" (by decide)).relative

/-- The state file is three names behind the workspace. -/
theorem stateFile_eq (g : Generation) :
    g.stateFile = g.workspace / ".buckforge" / "state" / "STATE" := by
  have text : StateFile.location = ⟨".buckforge/state" ++ "/" ++ "STATE"⟩ := by decide
  have text' : ".buckforge/state" = ".buckforge" ++ "/" ++ "state" := by decide
  have ends : ".buckforge/state".toList.getLast? = some 'e' := by decide
  have ends' : ".buckforge".toList.getLast? = some 'e' := by decide
  have dir : g.workspace / ".buckforge/state" = g.workspace / ".buckforge" / "state" := by
    rw [text']
    exact Path.join_append g.workspace (by decide) ends' (by decide)
      (isName_own "state" (by decide)).relative
  rw [stateFile, text, ← dir]
  exact Path.join_append g.workspace (by decide) ends (by decide)
      (isName_own "STATE" (by decide)).relative

theorem continues_scratchDir (g : Generation) :
    Path.Continues g.workspace g.scratchDir [".buckforge", "gen"] := by
  rw [scratchDir_eq]
  exact (Path.continues_join _ (isName_own ".buckforge" (by decide))).join (by simp)
    (fun s member => isName_own s (by simp_all)) (isName_own "gen" (by decide))

private theorem continues_stateFile (g : Generation) :
    Path.Continues g.workspace g.stateFile [".buckforge", "state", "STATE"] := by
  rw [stateFile_eq]
  have first := Path.continues_join g.workspace (isName_own ".buckforge" (by decide))
  have second := first.join (by simp) (fun s member => isName_own s (by simp_all))
    (isName_own "state" (by decide))
  exact second.join (by simp)
    (fun s member => isName_own s (by revert s; decide)) (isName_own "STATE" (by decide))

theorem lexical_scratchDir (g : Generation) (t : Tree) :
    t.lexical g.scratchDir = t.lexical g.workspace ++ [".buckforge", "gen"] :=
  lexical_of_continues t g.continues_scratchDir fun s member =>
    isName_own s (by revert s; decide)

theorem lexical_stateFile (g : Generation) (t : Tree) :
    t.lexical g.stateFile = t.lexical g.workspace ++ [".buckforge"] ++ ["state", "STATE"] := by
  rw [List.append_assoc]
  exact lexical_of_continues t g.continues_stateFile fun s member =>
    isName_own s (by revert s; decide)

/-- The places below the root of the cache, and those below the directory in which a pass keeps what
is its own. -/
def Inner (g : Generation) (t : Tree) (place : Location) : Prop :=
  ∃ start ∈ [t.lexical g.cacheRoot, t.lexical g.workspace ++ [".buckforge"]],
    start <+: place ∧ place ≠ start

/-- Writing the state file makes at most the directory that it is in. -/
theorem stateFile_edited (rooted : t.Rooted) (enters : t.Enters g.scratchDir)
    (ran : FileM.publishBytes g.stateFile bytes t = .ok () t') :
    Edited (fun place => place = t.lexical g.workspace ++ [".buckforge", "state"] ∨
        place = t.lexical g.stateFile)
      (· = t.lexical g.stateFile) t t' := by
  have parent : g.stateFile.parent? ≠ none := by
    obtain ⟨q, known, -⟩ := parent?_join (d := g.workspace / ".buckforge" / "state") t
      (isName_own "STATE" (by decide))
    rw [stateFile_eq, known]
    simp
  have edited : Edited (fun place => place = t.lexical g.workspace ++ [".buckforge", "state"] ∨
        place = t.lexical g.stateFile)
      (· = t.lexical g.stateFile) t (Running.left (FileM.publishBytes g.stateFile bytes t)) := by
    refine FileM.publishBytes_edited rooted parent (fun {place} passes => ?_) rfl
    have good : ∀ s ∈ [".buckforge", "state", "STATE"], Path.IsName s := fun s member =>
      isName_own s (by revert s; decide)
    rcases passes_of_continues g.continues_stateFile good passes with passes | ⟨front, more, within, rfl⟩
    · exact Or.inr (enters.directory (passes_of_continued g.continues_scratchDir passes))
    · rcases List.prefix_cons_iff.mp within with rfl | ⟨behind, rfl, within'⟩
      · exact absurd rfl more
      rcases List.prefix_cons_iff.mp within' with rfl | ⟨behind', rfl, last⟩
      · right
        have above : Path.Continues (g.workspace / ".buckforge") g.scratchDir ["gen"] := by
          rw [scratchDir_eq]
          exact Path.continues_join _ (isName_own "gen" (by decide))
        have held := enters.directory (passes_of_continued above (passes_lexical t _))
        rwa [lexical_join t (isName_own ".buckforge" (by decide))] at held
      rcases List.prefix_cons_iff.mp last with rfl | ⟨none, rfl, ends⟩
      · exact Or.inl (Or.inl rfl)
      · rw [List.prefix_nil.mp ends, lexical_stateFile, List.append_assoc]
        exact Or.inl (Or.inr rfl)
  rwa [ran] at edited

end Generation

end RuleDepot
