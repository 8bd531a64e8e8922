import RuleDepot.Proofs.Files.Parents
import RuleDepot.Proofs.Files.Replacing
/-!
What stands already.  An action that is to bring about what is there already finds it and changes
nothing.  The other way round, an action that fails tells what is not there: after a failure to make
sure of a directory there is none, and after a failure to take a file away, or to put one at a name,
no file stands there.
-/

namespace RuleDepot

open Running

variable {t t' : Tree} {p d : Path} {name : String} {node : Node} {bytes : ByteArray} {e : IoError}

namespace Tree

/-- A path that leads anywhere is about some entry, or about none that could be made. -/
theorem target_of_status (found : t.status p = .ok node) : ∃ target, t.target p = .ok target := by
  obtain ⟨leads, -⟩ := status_eq_ok_iff.mp found
  obtain ⟨fits, walked⟩ := locate_eq_ok_iff.mp leads
  unfold target
  simp only [fits]
  cases dropped : p.pieces.reverse.dropWhile (· == "") with
  | nil => exact ⟨_, rfl⟩
  | cons last before =>
    obtain ⟨spelled, solid⟩ := pieces_of_dropWhile dropped
    rw [spelled, List.foldlM_append] at walked
    obtain ⟨dir, first, later⟩ := ok_of_bind walked
    rw [List.foldlM_cons] at later
    obtain ⟨next, entered, -⟩ := ok_of_bind later
    obtain ⟨directory, -, short⟩ := follow_eq_ok_iff.mp entered
    by_cases dots : last = "." ∨ last = ".."
    · refine ⟨⟨dir, none, p.pieces.reverse.head? == some ""⟩, ?_⟩
      simp only [bind, Except.bind, first, directory, Bool.or_eq_true, decide_eq_true_eq, dots, if_true]
    · obtain ⟨still, down⟩ := not_or.mp dots
      have long : ¬ nameLimit < last.utf8ByteSize :=
        Nat.not_lt.mpr (short (by simp [Path.isFiller, solid, still]) down).1
      refine ⟨⟨dir, some last, p.pieces.reverse.head? == some ""⟩, ?_⟩
      simp only [bind, Except.bind, first, directory, Bool.or_eq_true, decide_eq_true_eq, dots, long,
        if_false]

/-- A path is about the entry that it names. -/
theorem Aims.target {before : List String} {slashes : Nat} (aims : Aims t p before name slashes) :
    ∃ target, t.target p = .ok target ∧ target.place? = some (t.lexical p) ∧
      (slashes = 0 → target.slashed = false) := by
  have solid : name ≠ "" := fun blank => by simpa [blank, Path.isFiller] using aims.solid
  have still : name ≠ "." := fun dot => by simpa [dot, Path.isFiller] using aims.solid
  have reversed : p.pieces.reverse = List.replicate slashes "" ++ name :: before.reverse := by
    simp [aims.pieces]
  have dropped : (List.replicate slashes "" ++ name :: before.reverse).dropWhile (· == "") =
      name :: before.reverse := by
    simp [solid]
  refine ⟨⟨before.foldl advance (t.start p), some name,
    (List.replicate slashes "" ++ name :: before.reverse).head? == some ""⟩, ?_, ?_, ?_⟩
  · unfold Tree.target
    simp only [bind, Except.bind, aims.fits, reversed, dropped, List.reverse_reverse, aims.walked,
      aims.directory]
    simp [still, aims.down, Nat.not_lt.mpr aims.short]
  · simp [Target.place?, aims.lexical_eq]
  · rintro rfl
    simp [solid]

end Tree

namespace FileM

open RuleDepot.Tree

/-- What is there cannot be made again, and it is not for want of a parent. -/
theorem makeDir_of_status (found : t.status p = .ok node) :
    ∃ e, makeDir p t = .error e t ∧ e.kind ≠ .notFound := by
  obtain ⟨target, aimed⟩ := target_of_status found
  rw [makeDir, get_bind, aimed, ofLookup_ok_bind]
  cases named : target.place? with
  | none => exact ⟨.ofKind .alreadyExists, rfl, by simp [IoError.ofKind]⟩
  | some place =>
    obtain ⟨-, -, -, -, rfl, -⟩ := aims_of_target aimed named
    have held := (status_eq_ok_iff.mp found).2
    refine ⟨.ofKind .alreadyExists, ?_, by simp [IoError.ofKind]⟩
    simp only [held, Option.isSome_some, if_true]
    rfl

theorem ancestors_succ (n : Nat) (p : Path) :
    ancestors (n + 1) p = p :: p.parent?.elim [] (ancestors n) := by
  cases parent : p.parent? <;> simp [ancestors, parent]

/-- A directory is made as the entry that the path names, where nothing stood. -/
theorem makeDir_ok (made : makeDir p t = .ok () t') :
    (∃ before name slashes, Aims t p before name slashes) ∧ t.node? (t.lexical p) = none ∧
      t' = t.insert (t.lexical p) .directory := by
  rw [makeDir, get_bind] at made
  cases aimed : t.target p with
  | error kind =>
    rw [aimed] at made
    cases made
  | ok target =>
    rw [aimed, ofLookup_ok_bind] at made
    cases named : target.place? with
    | none =>
      rw [named] at made
      cases made
    | some place =>
      obtain ⟨before, name, slashes, aims, rfl, -⟩ := aims_of_target aimed named
      rw [named] at made
      cases held : t.node? (t.lexical p) with
      | some node =>
        simp only [held, Option.isSome_some, if_true] at made
        cases made
      | none =>
        simp only [held] at made
        cases made
        exact ⟨⟨before, name, slashes, aims⟩, rfl, rfl⟩

/-- How making the first directory of a chain goes: it is there or can be made at once, or what is
missing of its parents is made first; it fails if a parent cannot be made or something else bars it. -/
inductive Chained (p : Path) (parents : List Path) (t : Tree) :
    EStateM.Result IoError Tree Unit → Prop where
  | blank (empty : p.text = "") : Chained p parents t (.ok () t)
  | there (directory : t.isDir p = true) : Chained p parents t (.ok () t)
  | made {t' : Tree} (made : makeDir p t = .ok () t') : Chained p parents t (.ok () t')
  | barred {e : IoError} (missing : t.isDir p = false) (failed : makeDir p t = .error e t)
      (other : e.kind ≠ .notFound) : Chained p parents t (.error e t)
  | orphaned {e e' : IoError} {t' : Tree} (missing : t.isDir p = false)
      (failed : makeDir p t = .error e t) (above : makeChain parents t = .error e' t') :
      Chained p parents t (.error e' t')
  | thereLater {e : IoError} {t' : Tree} (missing : t.isDir p = false)
      (failed : makeDir p t = .error e t) (above : makeChain parents t = .ok () t')
      (directory : t'.isDir p = true) : Chained p parents t (.ok () t')
  | madeLater {e : IoError} {t' t'' : Tree} (missing : t.isDir p = false)
      (failed : makeDir p t = .error e t) (above : makeChain parents t = .ok () t')
      (made : makeDir p t' = .ok () t'') : Chained p parents t (.ok () t'')
  | barredLater {e e' : IoError} {t' : Tree} (missing : t.isDir p = false)
      (failed : makeDir p t = .error e t) (above : makeChain parents t = .ok () t')
      (still : t'.isDir p = false) (failed' : makeDir p t' = .error e' t') :
      Chained p parents t (.error e' t')

theorem makeChain_cases (p : Path) (parents : List Path) (t : Tree) :
    Chained p parents t (makeChain (p :: parents) t) := by
  rw [makeChain]
  by_cases blank : p.text.isEmpty = true
  · simp only [blank, if_true, pure_run]
    exact .blank (by simpa using blank)
  · simp only [blank, Bool.false_eq_true, if_false, get_bind]
    rcases makeDir_cases p t with ⟨e, failed⟩ | ⟨made, -⟩
    · rw [failed]
      by_cases missing : e.kind = .notFound
      · have gone : t.isDir p = false := by
          rw [Bool.eq_false_iff]
          intro directory
          obtain ⟨e', failed', other⟩ := makeDir_of_status (isDir_iff.mp directory)
          rw [failed'] at failed
          cases failed
          exact other missing
        simp only [missing, if_true, bind_run (set t), set_run, bind_run (makeChain parents)]
        cases above : makeChain parents t with
        | error e' t' => exact .orphaned gone failed above
        | ok _ t' =>
          simp only [get_bind]
          rcases makeDir_cases p t' with ⟨e', failed'⟩ | ⟨made, -⟩
          · rw [failed']
            by_cases there : t'.isDir p = true
            · simp only [there, if_true, set_run]
              exact .thereLater gone failed above there
            · simp only [there]
              exact .barredLater gone failed above (Bool.eq_false_iff.mpr there) failed'
          · rw [made]
            exact .madeLater gone failed above made
      · simp only [missing, if_false, bind_run (set t), set_run]
        by_cases there : t.isDir p = true
        · simp only [there, if_true, pure_run]
          exact .there there
        · simp only [there]
          exact .barred (Bool.eq_false_iff.mpr there) failed missing
    · rw [made]
      exact .made made

/-- Making a directory that is there changes nothing, whatever its parents are. -/
theorem makeChain_of_isDir (directory : t.isDir p = true) (parents : List Path) :
    makeChain (p :: parents) t = .ok () t := by
  obtain ⟨held, found⟩ := status_eq_ok_iff.mp (isDir_iff.mp directory)
  have chained := makeChain_cases p parents t
  generalize makeChain _ t = result at chained ⊢
  cases chained with
  | blank | there => rfl
  | made made => simp [(makeDir_ok made).2.1] at found
  | barred missing | orphaned missing | thereLater missing | madeLater missing
  | barredLater missing => simp [missing] at directory

theorem makeDirs_of_isDir (directory : t.isDir p = true) : makeDirs p t = .ok () t := by
  rw [makeDirs, ancestors_succ]
  exact makeChain_of_isDir directory _

theorem ensureDir_of_isDir (directory : t.isDir p = true) : ensureDir p t = .ok () t := by
  have reached : t.reaches p = true := reaches_iff.mpr ⟨_, isDir_iff.mp directory⟩
  rw [ensureDir, get_bind]
  simp only [reached, directory, Bool.not_true, Bool.false_eq_true, if_false, if_true, pure_run]

/-- The empty path is never made, so a chain that starts with it does not fail. -/
theorem text_ne_empty_of_makeChain (failed : makeChain (p :: parents) t = .error e t') :
    p.text ≠ "" := by
  intro blank
  rw [makeChain, if_pos (by simpa using blank)] at failed
  cases failed

/-- If a directory and its parents cannot be made, it is not there.  The induction is on how many
parents are tried: while one of them is missing, so is the directory. -/
theorem isDir_of_makeChain {n : Nat} (failed : makeChain (ancestors (n + 1) p) t = .error e t') :
    t'.isDir p = false := by
  induction n generalizing p t e t' with
  | zero =>
    have chained := makeChain_cases p [] t
    have alone : ancestors 1 p = [p] := by
      rw [ancestors_succ]
      cases p.parent? <;> rfl
    rw [alone] at failed
    rw [failed] at chained
    cases chained with
    | barred missing => exact missing
    | orphaned missing _ above =>
      cases above
      exact missing
    | barredLater _ _ _ still => exact still
  | succ n ih =>
    rw [ancestors_succ] at failed
    have chained := makeChain_cases p (p.parent?.elim [] (ancestors (n + 1))) t
    rw [failed] at chained
    cases chained with
    | barred missing => exact missing
    | barredLater _ _ _ still => exact still
    | orphaned missing _ above =>
      cases parent : p.parent? with
      | none =>
        rw [parent] at above
        cases above
        exact missing
      | some q =>
        rw [parent, Option.elim_some] at above
        rw [Bool.eq_false_iff]
        intro directory
        rcases isDir_parent (isDir_iff.mp directory) parent with there | ⟨blank, -⟩
        · rw [ih above] at there
          cases there
        · rw [ancestors_succ] at above
          exact text_ne_empty_of_makeChain above blank

/-- If something bars a directory from being made, it is not there. -/
theorem isDir_of_ensureDir (failed : ensureDir p t = .error e t') : t'.isDir p = false := by
  rw [ensureDir, get_bind] at failed
  by_cases reached : t.reaches p = true
  · simp only [reached, Bool.not_true, Bool.false_eq_true, if_false] at failed
    split at failed
    · cases failed
    · rename_i missing
      cases failed
      exact Bool.eq_false_iff.mpr missing
  · simp only [reached] at failed
    exact isDir_of_makeChain failed

/-- A file that was to be taken away is gone, or was not there. -/
theorem isFile_removeFile (p : Path) (t : Tree) : (left (removeFile p t)).isFile p = false := by
  rcases removeFile_cases p t with ⟨e, failed⟩ | ⟨former, gone, found, file⟩
  · rw [failed]
    change t.isFile p = false
    rw [Bool.eq_false_iff]
    intro file
    obtain ⟨bytes, held⟩ := isFile_iff.mp file
    obtain ⟨leads, stands⟩ := status_eq_ok_iff.mp held
    rw [removeFile, get_bind, leads, ofLookup_ok_bind] at failed
    simp only [stands] at failed
    cases failed
  · rw [gone]
    change (t.erase (t.lexical p)).isFile p = false
    rw [Bool.eq_false_iff]
    intro still
    obtain ⟨bytes, held⟩ := isFile_iff.mp still
    have stands := (status_eq_ok_iff.mp held).2
    have same : (t.erase (t.lexical p)).lexical p = t.lexical p := lexical_congr rfl p
    rw [same] at stands
    have named : t.lexical p ≠ [] := fun root => by simp [node?, root] at file
    have itself : (t.lexical p).isPrefixOf (t.lexical p) = true := by simp
    simp [node?, named, erase, Std.ExtTreeMap.getElem?_filter, itself] at stands

/-- A file of a name is there for bytes to be put over. -/
theorem replaceFile_of_isFile (named : Path.IsName name) (file : t.isFile (d / name) = true) :
    replaceFile (d / name) bytes t = .ok () (t.insert (t.lexical (d / name)) (.file bytes)) := by
  obtain ⟨former, held⟩ := isFile_iff.mp file
  obtain ⟨leads, stands⟩ := status_eq_ok_iff.mp held
  obtain ⟨before, aims⟩ := aims_of_found named leads
  obtain ⟨target, aimed, place, bare⟩ := aims.target
  rw [replaceFile, get_bind, aimed, ofLookup_ok_bind]
  simp only [place, stands, bare rfl, Bool.false_eq_true, if_false]
  rfl

/-- If a file that stands cannot be published anew, there is no room to stage it. -/
theorem unstaged_of_publishBytes (named : Path.IsName name)
    (failed : publishBytes (d / name) bytes t = .error e t') (file : t'.isFile (d / name) = true) :
    ∃ kind, admissible (stagedPath t' (d / name).stagingDir) = .error kind := by
  obtain ⟨former, held⟩ := isFile_iff.mp file
  have parent : (d / name).parent? ≠ none := by
    obtain ⟨q, known, -⟩ := parent?_join (d := d) t named
    simp [known]
  have directory := isDir_stagingDir held parent
  rw [publishBytes, bind_run] at failed
  cases staged : ensureDir (d / name).stagingDir t with
  | error e' middle =>
    rw [staged] at failed
    cases failed
    rw [isDir_of_ensureDir staged] at directory
    cases directory
  | ok _ middle =>
    rw [staged] at failed
    simp only [bind_run, stage_run] at failed
    cases fits : admissible (stagedPath middle (d / name).stagingDir) with
    | error kind =>
      rw [fits] at failed
      cases failed
      exact ⟨kind, fits⟩
    | ok _ =>
      rw [fits] at failed
      simp only at failed
      rcases replaceFile_cases (d / name) bytes middle with ⟨e', failed'⟩ | ⟨put, -⟩
      · rw [failed'] at failed
        cases failed
        rw [replaceFile_of_isFile named file] at failed'
        cases failed'
      · rw [put] at failed
        cases failed

end FileM

end RuleDepot
