import RuleDepot.Proofs.Cache.Repeating
import RuleDepot.Proofs.Collector.Closing
import RuleDepot.Proofs.Collector.RuleLists
import RuleDepot.Proofs.Resolving
/-!
The end of a collector, and the same once more.  A collector leaves its marks in the directory of its
shelf and on the way to it.  If others keep away from there, then a collector with the same requests
finds everything as it was left: it plans and answers the same, copies nothing, and writes over its
rule file what is in it.
-/

namespace RuleDepot

open Running RuleDepot.Tree

variable {t t' u middle : Tree} {base root : Path} {trail : List String} {inner : Location → Prop}
  {rules : List Rule} {file : Option Path}

/-- The places behind a location along a trail. -/
def Tree.Along (start : Location) (trail : List String) (place : Location) : Prop :=
  ∃ front, front ≠ [] ∧ front <+: trail ∧ place = start ++ front

/-- A directory is at the end of a trail of good and short names. -/
structure Path.Located (base : Path) (trail : List String) (root : Path) : Prop where
  continues : Path.Continues base root trail
  solid : ∀ s ∈ trail, Path.IsName s ∧ s.utf8ByteSize ≤ nameLimit
  filled : trail ≠ []
  named : root.text ≠ ""

namespace Path.Located

theorem lexical (located : Located base trail root) (t : Tree) :
    t.lexical root = t.lexical base ++ trail :=
  lexical_of_continues t located.continues fun s member => (located.solid s member).1

/-- Only the way along the trail has to be made. -/
theorem allowed (located : Located base trail root) (enters : t.Enters base)
    {place : Location} (passes : t.Passes root place) :
    Along (t.lexical base) trail place ∨ t.node? place = some .directory := by
  rcases passes_of_continues located.continues (fun s member => (located.solid s member).1) passes with
    passes | along
  · exact Or.inr (enters.directory passes)
  · exact Or.inl along

end Path.Located

/-- Others changed nothing that is kept at the end of a trail and put no file on the way there. -/
abbrev Tree.Beside (inner : Location → Prop) (start : Location) (trail : List String) (t u : Tree) :
    Prop :=
  Edited (fun place => inner place ∧ ¬ Cache.Holds (start ++ trail) place)
    (fun place => inner place ∧ ¬ Cache.Holds (start ++ trail) place ∧ ¬ Along start trail place) t u

namespace Collector

/-- Writing rules leaves its marks on the way to the rule file and there. -/
theorem Writes.edited (writes : Writes (root / Cache.ruleFileName) rules t file t')
    (located : Path.Located base trail root) (enters : t.Enters base) (rooted : t.Rooted) :
    Edited (fun place => Along (t.lexical base) trail place ∨
        place = t.lexical root ++ [Cache.ruleFileName])
      (· = t.lexical root ++ [Cache.ruleFileName]) t t' := by
  have named := Cache.isName_ruleFileName
  have own : t.lexical (root / Cache.ruleFileName) = t.lexical root ++ [Cache.ruleFileName] :=
    lexical_join t named
  cases writes with
  | absent => exact .refl rooted
  | removed gone =>
    have edited : Edited (fun place => Along (t.lexical base) trail place ∨
          place = t.lexical root ++ [Cache.ruleFileName])
        (· = t.lexical root ++ [Cache.ruleFileName]) t
        (left (FileM.removeFile (root / Cache.ruleFileName) t)) :=
      FileM.removeFile_edited rooted own
    rwa [gone] at edited
  | published filled put =>
    have parent : (root / Cache.ruleFileName).parent? ≠ none := by
      obtain ⟨q, known, -⟩ := parent?_join (d := root) t named
      simp [known]
    have edited : Edited (fun place => Along (t.lexical base) trail place ∨
          place = t.lexical root ++ [Cache.ruleFileName])
        (· = t.lexical root ++ [Cache.ruleFileName]) t
        (left (FileM.publishBytes (root / Cache.ruleFileName) (printRules rules).toUTF8 t)) := by
      refine FileM.publishBytes_edited rooted parent (fun passes => ?_) own
      rcases passes_join named passes with passes | rfl
      · exact (located.allowed enters passes).imp_left Or.inl
      · exact Or.inl (Or.inr rfl)
    rwa [put] at edited

/-- Where a rule file was taken away or not found, there is nothing to take away any more: no file is
where it would be or in the way. -/
theorem Writes.absent_again (edited : Edited (fun place => Along (t.lexical base) trail place ∨
        place = t.lexical root ++ [Cache.ruleFileName])
      (· = t.lexical root ++ [Cache.ruleFileName]) t t')
    (ran : FileM.removeFile (root / Cache.ruleFileName) t = .ok () t' ∨
      t' = t ∧ ∃ e, FileM.removeFile (root / Cache.ruleFileName) t = .error e t ∧ e.kind = .notFound)
    (located : Path.Located base trail root) (enters : t.Enters base) (rooted : t.Rooted)
    (beside : Beside inner (t.lexical base) trail t' u) :
    Writes (root / Cache.ruleFileName) [] u none u := by
  have named := Cache.isName_ruleFileName
  have there : u.Enters base := beside.enters (edited.enters enters)
  have holds : Cache.Holds (t.lexical base ++ trail) (t.lexical root ++ [Cache.ruleFileName]) :=
    Or.inl ⟨Cache.ruleFileName, Or.inl rfl, by rw [located.lexical]⟩
  have solid : ∀ s ∈ trail ++ [Cache.ruleFileName], Path.IsName s ∧ s.utf8ByteSize ≤ nameLimit := by
    intro s member
    rcases List.mem_append.mp member with member | member
    · exact located.solid s member
    · exact List.mem_singleton.mp member ▸ ⟨named, by decide⟩
  have continues := located.continues.join located.filled (fun s member => (located.solid s member).1)
    named
  have leads : ∀ t : Tree, t.lexical (root / Cache.ruleFileName) =
      t.lexical base ++ (trail ++ [Cache.ruleFileName]) := fun t => by
    rw [lexical_join t named, located.lexical, List.append_assoc]
  obtain ⟨fits, gone, clear⟩ := FileM.clear_of_removeFile rooted enters continues (leads t) solid
    (by simp) ran
  have clear' : ∀ front rest, trail ++ [Cache.ruleFileName] = front ++ rest → rest ≠ [] →
      ∀ bytes, u.node? (u.lexical base ++ front) ≠ some (.file bytes) := by
    intro front rest split more bytes file
    rw [beside.lexical, edited.lexical] at file
    by_cases top : front = []
    · have held := there.held
      rw [beside.lexical, edited.lexical] at held
      rw [top, List.append_nil, held] at file
      cases file
    · have within : front <+: trail := by
        have part : front <+: trail ++ [Cache.ruleFileName] := split ▸ List.prefix_append _ _
        refine (List.prefix_concat_iff.mp part).resolve_left fun whole => more ?_
        simpa [whole] using split
      have former := beside.file (fun put => put.2.2 ⟨front, top, within, rfl⟩) file
      refine clear front rest split more bytes (edited.file (fun same => ?_) former)
      rw [located.lexical, List.append_assoc] at same
      have long := within.length_le
      rw [List.append_cancel_left same, List.length_append, List.length_singleton] at long
      omega
  have gone' : u.node? (u.lexical base ++ (trail ++ [Cache.ruleFileName])) = none := by
    rw [beside.lexical, edited.lexical, ← List.append_assoc, ← located.lexical]
    rw [beside.same (fun made => made.2 holds) fun put => put.2.1 holds, located.lexical,
      List.append_assoc]
    exact gone
  obtain ⟨e, failed, missing⟩ := FileM.removeFile_of_clear there continues fits solid clear' gone'
  exact .absent failed missing

/-- Rules that were written are written again over the file that holds them; where there are none,
there is nothing to take away any more. -/
theorem Writes.again (writes : Writes (root / Cache.ruleFileName) rules t file t')
    (located : Path.Located base trail root) (enters : t.Enters base) (rooted : t.Rooted)
    (beside : Beside inner (t.lexical base) trail t' u) :
    Writes (root / Cache.ruleFileName) rules u file u := by
  have named := Cache.isName_ruleFileName
  have edited := writes.edited located enters rooted
  cases writes with
  | absent failed missing =>
    exact absent_again edited (Or.inr ⟨rfl, _, failed, missing⟩) located enters rooted beside
  | removed gone => exact absent_again edited (Or.inl gone) located enters rooted beside
  | published filled put =>
    have leads : Leads t' u (root / Cache.ruleFileName) := by
      refine beside.leads_join located.named named ?_
      rw [edited.lexical]
      refine fun put => put.2.1 (Or.inl ⟨Cache.ruleFileName, Or.inl rfl, ?_⟩)
      rw [located.lexical]
    have fits := FileM.admissible_of_publishBytes put
    rw [← FileM.stagedPath_congr (beside.workingDir.trans edited.workingDir)] at fits
    exact .published filled
      (FileM.publishBytes_again named (leads.read (FileM.read_publishBytes put).1) fits)

end Collector

namespace Collector

variable {c c' : Collector} {demands : Demands} {report : CollectorReport}

/-- Nothing changes that is kept in a directory, but for the rule file. -/
abbrev Settling (inner : Location → Prop) (dir : Location) (t u : Tree) : Prop :=
  Edited inner
    (fun place => inner place ∧ (Cache.Holds dir place → place = dir ++ [Cache.ruleFileName])) t u

namespace Settling

variable {name : String} {a : Artifact}

/-- A path that keeps clear of all changes leads to the same. -/
theorem status_eq {dir : Location} {p : Path} (settling : Settling inner dir t u)
    (clear : ∀ place, t.Passes p place → ¬ inner place) : u.status p = t.status p :=
  (settling.sameBut (fun _ => id) fun _ put => put.1).status fun passes => clear _ passes

/-- A file that was placed is there still. -/
theorem leads (settling : Settling inner (t.lexical root) t u) (filled : root.text ≠ "")
    (named : Path.IsName name) (dash : '-' ∈ name.toList) : Leads t u (root / name) := by
  refine settling.leads_join filled named fun put => ?_
  have same := put.2 (Or.inl ⟨name, Or.inr (Or.inr dash), rfl⟩)
  obtain rfl : name = Cache.ruleFileName := by simpa using List.append_cancel_left same
  revert dash
  decide

private theorem recalls (settling : Settling inner (t.lexical root) t u) (filled : root.text ≠ "")
    (digest : a.hash.IsDigest) (clear : ∀ place, t.Passes a.source place → ¬ inner place) :
    Cache.Recalls root a t u where
  directory := settling.isDir
  locks := settling.isDir
  lock := by
    refine settling.leads_join (Path.text_join_ne_empty _ (by decide)) (Naming.isName_lock a.key)
      fun put => ?_
    rw [lexical_join t Cache.isName_locks, List.append_assoc] at put
    have same := put.2 (Or.inr ⟨_, rfl⟩)
    simpa using congrArg List.length (List.append_cancel_left same)
  name name candidate :=
    settling.leads filled (Naming.isName_candidate digest candidate).1
      (Naming.isName_candidate digest candidate).2
  source node found := (settling.status_eq clear).trans found

end Settling

end Collector

end RuleDepot
