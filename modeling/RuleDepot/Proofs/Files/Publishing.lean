import RuleDepot.Proofs.Files.Growth
import RuleDepot.Proofs.Running
/-!
What the actions on files do to a tree.  Each action changes at most the location that its path
leads to lexically: directories are made only where nothing stood, a lock is made only where
nothing stood, and a publication puts the bytes over a file or where nothing stood.  An action that
fails leaves at most new directories behind.
-/

namespace RuleDepot

variable {t t' : Tree} {p : Path} {name : String} {place : Location} {node : Node}
  {bytes : ByteArray} {e : IoError}

namespace Tree

/-- A path is about one entry of a directory that is there.  `before` are the pieces in front of the
name, and `slashes` counts the empty pieces behind it. -/
structure Aims (t : Tree) (p : Path) (before : List String) (name : String) (slashes : Nat) :
    Prop where
  fits : admissible p = .ok ()
  pieces : p.pieces = before ++ name :: List.replicate slashes ""
  walked : before.foldlM t.follow (t.start p) = .ok (before.foldl advance (t.start p))
  directory : t.node? (before.foldl advance (t.start p)) = some .directory
  solid : Path.isFiller name = false
  down : name ≠ ".."
  short : name.utf8ByteSize ≤ nameLimit

namespace Aims

variable {before : List String} {slashes : Nat}

private theorem advance_name (aims : Aims t p before name slashes) (dir : Location) :
    advance dir name = dir ++ [name] := by
  simp [advance, aims.solid, aims.down]

private theorem advance_slashes (count : Nat) (dir : Location) :
    (List.replicate count "").foldl advance dir = dir := by
  induction count generalizing dir with
  | zero => rfl
  | succ count ih => simpa [List.replicate_succ, advance, Path.isFiller] using ih dir

/-- The entry stands where the path leads lexically. -/
theorem lexical_eq (aims : Aims t p before name slashes) :
    t.lexical p = before.foldl advance (t.start p) ++ [name] := by
  rw [lexical, aims.pieces, List.foldl_append, List.foldl_cons, aims.advance_name,
    advance_slashes]

theorem lexical_ne_nil (aims : Aims t p before name slashes) : t.lexical p ≠ [] := by
  simp [aims.lexical_eq]

theorem kept {new : Location → Node → Prop} (grown : Grown new t t')
    (aims : Aims t p before name slashes) : Aims t' p before name slashes where
  fits := aims.fits
  pieces := aims.pieces
  walked := by
    rw [start_congr grown.workingDir]
    exact grown.walk aims.walked
  directory := by
    rw [start_congr grown.workingDir]
    exact grown.kept aims.directory
  solid := aims.solid
  down := aims.down
  short := aims.short

private theorem walk_slashes (count : Nat) (held : t.node? place = some .directory) :
    (List.replicate count "").foldlM t.follow place = .ok place := by
  induction count with
  | zero => rfl
  | succ count ih =>
    have stays : t.follow place "" = .ok place :=
      follow_eq_ok_iff.mpr ⟨held, by simp [advance, Path.isFiller], by simp [Path.isFiller]⟩
    rw [List.replicate_succ, List.foldlM_cons, stays]
    exact ih

/-- An entry that is there is found; behind a slash it has to be a directory. -/
theorem status (aims : Aims t p before name slashes) (held : t.node? (t.lexical p) = some node)
    (closed : slashes = 0 ∨ node = .directory) : t.status p = .ok node := by
  have found : t.locate p = .ok (t.lexical p) := by
    have entered : t.follow (before.foldl advance (t.start p)) name = .ok (t.lexical p) := by
      rw [follow_eq_ok_iff, aims.advance_name, ← aims.lexical_eq]
      exact ⟨aims.directory, rfl, fun _ _ => ⟨aims.short, by simp [held]⟩⟩
    rw [locate_eq_ok_iff, aims.pieces, List.foldlM_append, aims.walked]
    refine ⟨aims.fits, ?_⟩
    change List.foldlM t.follow _ (name :: _) = _
    rw [List.foldlM_cons, entered]
    change List.foldlM t.follow _ (List.replicate slashes "") = _
    rcases closed with rfl | rfl
    · rfl
    · exact walk_slashes slashes held
  exact status_eq_ok_iff.mpr ⟨found, held⟩

end Aims

theorem pieces_of_dropWhile {pieces before : List String} {last : String}
    (dropped : pieces.reverse.dropWhile (· == "") = last :: before) :
    pieces = before.reverse ++
        last :: List.replicate (pieces.reverse.takeWhile (· == "")).length "" ∧ last ≠ "" := by
  have slashes : pieces.reverse.takeWhile (· == "") =
      List.replicate (pieces.reverse.takeWhile (· == "")).length "" := by
    refine List.eq_replicate_iff.mpr ⟨rfl, fun piece member => ?_⟩
    simpa using List.all_eq_true.mp List.all_takeWhile piece member
  have whole := List.takeWhile_append_dropWhile (p := (· == "")) (l := pieces.reverse)
  rw [dropped, slashes] at whole
  constructor
  · have spelled := congrArg List.reverse whole
    simpa using spelled.symm
  · have nonempty : pieces.reverse.dropWhile (· == "") ≠ [] := by simp [dropped]
    have head := List.head_dropWhile_not (· == "") nonempty
    simpa [dropped] using head

/-- A path that names an entry is about that entry. -/
theorem aims_of_target {target : Target} (aimed : t.target p = .ok target)
    (named : target.place? = some place) :
    ∃ before name slashes, Aims t p before name slashes ∧ place = t.lexical p ∧
      (target.slashed = false → slashes = 0) := by
  unfold Tree.target at aimed
  obtain ⟨_, fits, aimed⟩ := Running.ok_of_bind aimed
  simp only at aimed
  split at aimed
  · cases aimed
    cases named
  · rename_i last before dropped
    obtain ⟨spelled, solid⟩ := pieces_of_dropWhile dropped
    obtain ⟨dir, went, aimed⟩ := Running.ok_of_bind aimed
    obtain rfl := walk_lexical went
    split at aimed
    · cases aimed
    · cases aimed
    · rename_i held
      split at aimed
      · cases aimed
        cases named
      · rename_i dots
        split at aimed
        · cases aimed
        · rename_i short
          cases aimed
          simp only [Bool.or_eq_true, decide_eq_true_eq, not_or] at dots
          have aims : Aims t p before.reverse last _ :=
            ⟨fits, spelled, went, held, by simp [Path.isFiller, solid, dots.1], dots.2,
              Nat.le_of_not_lt short⟩
          refine ⟨_, _, _, aims, ?_, fun open_ => ?_⟩
          · rw [aims.lexical_eq]
            exact (Option.some.inj named).symm
          · cases ends : p.pieces.reverse with
            | nil => simp
            | cons first rest =>
              simp only [ends, List.head?_cons] at open_
              have other : (first == "") = false := by simpa using open_
              simp [other]

end Tree

namespace FileM

open RuleDepot.Tree Running

@[simp] theorem ofLookup_ok_bind {α β : Type} (a : α) (f : α → FileM β) (t : Tree) :
    (ofLookup (.ok a) >>= f) t = f a t := rfl

theorem ofRead_run {α : Type} (look : Tree → Except IoError α) (t : Tree) :
    ofRead look t = match look t with
      | .ok a => .ok a t
      | .error e => .error e t := by
  rw [ofRead, get_bind]
  cases look t <;> rfl

/-- Making one directory fails and changes nothing, or puts it where nothing stood. -/
theorem makeDir_cases (p : Path) (t : Tree) :
    (∃ e, makeDir p t = .error e t) ∨
      (makeDir p t = .ok () (t.insert (t.lexical p) .directory) ∧ t.lexical p ≠ [] ∧
        t.node? (t.lexical p) = none ∧ (t.insert (t.lexical p) .directory).isDir p = true) := by
  rw [makeDir, get_bind]
  cases aimed : t.target p with
  | error kind => exact Or.inl ⟨_, rfl⟩
  | ok target =>
    rw [ofLookup_ok_bind]
    cases named : target.place? with
    | none => exact Or.inl ⟨_, rfl⟩
    | some place =>
      obtain ⟨before, name, slashes, aims, rfl, -⟩ := aims_of_target aimed named
      by_cases taken : (t.node? (t.lexical p)).isSome = true
      · exact Or.inl ⟨.ofKind .alreadyExists, by simp only [taken, if_true]; rfl⟩
      · have absent : t.node? (t.lexical p) = none := by simpa using taken
        have grown : Grown Directories t (t.insert (t.lexical p) .directory) :=
          grown_insert aims.lexical_ne_nil absent rfl
        refine Or.inr ⟨by simp only [taken]; rfl, aims.lexical_ne_nil, absent, ?_⟩
        rw [isDir_iff]
        exact (aims.kept grown).status
          (by rw [grown.lexical]; exact node?_insert_self aims.lexical_ne_nil) (Or.inr rfl)

/-- An attempt that only adds directories, and after whose success the path leads to one.  The empty
path leads nowhere and counts as secured. -/
def Secures (p : Path) (t : Tree) (result : EStateM.Result IoError Tree Unit) : Prop :=
  Grown Directories t (left result) ∧
    ∀ t', result = .ok () t' → p.text.isEmpty = true ∨ t'.isDir p = true

private theorem secures_ok (grown : Grown Directories t t') (directory : t'.isDir p = true) :
    Secures p t (.ok () t') :=
  ⟨grown, fun _ same => by cases same; exact Or.inr directory⟩

private theorem secures_error (grown : Grown Directories t t') : Secures p t (.error e t') :=
  ⟨grown, nofun⟩

private theorem Secures.later {result : EStateM.Result IoError Tree Unit}
    (secures : Secures p t' result) (grown : Grown Directories t t') : Secures p t result :=
  ⟨grown.trans secures.1, secures.2⟩

private theorem secures_retry (p : Path) (t : Tree) :
    Secures p t ((match makeDir p t with
      | .ok _ t => set t
      | .error e t => if t.isDir p = true then set t else throw e : FileM Unit) t) := by
  rcases makeDir_cases p t with ⟨e, failed⟩ | ⟨made, named, absent, directory⟩
  · rw [failed]
    by_cases there : t.isDir p = true
    · simp only [there, if_true, set_run]
      exact secures_ok (.refl _ _) there
    · simp only [there]
      exact secures_error (.refl _ _)
  · rw [made]
    exact secures_ok (grown_insert named absent rfl) directory

/-- Making a chain of directories only adds directories, and the first one is there if it succeeds.
The induction is on the chain: the parents are made between the two attempts at the first. -/
theorem makeChain_secures (chain : List Path) (t : Tree) :
    Grown Directories t (left (makeChain chain t)) ∧
      ∀ p ∈ chain.head?, Secures p t (makeChain chain t) := by
  induction chain generalizing t with
  | nil => exact ⟨.refl _ _, by simp⟩
  | cons p parents ih =>
    have secures : Secures p t (makeChain (p :: parents) t) := by
      rw [makeChain]
      by_cases blank : p.text.isEmpty = true
      · simp only [blank, if_true, pure_run]
        exact ⟨.refl _ _, fun _ _ => Or.inl blank⟩
      · simp only [blank, Bool.false_eq_true, if_false, get_bind]
        rcases makeDir_cases p t with ⟨e, failed⟩ | ⟨made, named, absent, directory⟩
        · rw [failed]
          by_cases missing : e.kind = .notFound
          · simp only [missing, if_true, bind_run (set t), set_run, bind_run (makeChain parents)]
            have above := (ih t).1
            cases ran : makeChain parents t with
            | error e' middle =>
              rw [ran] at above
              exact secures_error above
            | ok _ middle =>
              rw [ran] at above
              exact (secures_retry p middle).later above
          · simp only [missing, if_false, bind_run (set t), set_run]
            by_cases there : t.isDir p = true
            · simp only [there, if_true, pure_run]
              exact secures_ok (.refl _ _) there
            · simp only [there]
              exact secures_error (.refl _ _)
        · rw [made]
          exact secures_ok (grown_insert named absent rfl) directory
    exact ⟨secures.1, fun q first => by cases first; exact secures⟩

/-- Making a directory with its parents only adds directories, and the path leads to one if it succeeds. -/
theorem makeDirs_secures (p : Path) (t : Tree) : Secures p t (makeDirs p t) :=
  (makeChain_secures _ t).2 p rfl

/-- Making sure of a directory only adds directories, and the path leads to one afterwards. -/
theorem ensureDir_secures (p : Path) (t : Tree) : Secures p t (ensureDir p t) := by
  rw [ensureDir, get_bind]
  by_cases reached : t.reaches p = true
  · simp only [reached, Bool.not_true, Bool.false_eq_true, if_false]
    by_cases there : t.isDir p = true
    · simp only [there, if_true]
      exact secures_ok (.refl _ _) there
    · simp only [there]
      exact secures_error (.refl _ _)
  · simp only [reached]
    exact makeDirs_secures p t

/-- Putting bytes at a path fails and changes nothing, or puts them where the path leads, over a
file or where nothing stood. -/
theorem replaceFile_cases (p : Path) (bytes : ByteArray) (t : Tree) :
    (∃ e, replaceFile p bytes t = .error e t) ∨
      (replaceFile p bytes t = .ok () (t.insert (t.lexical p) (.file bytes)) ∧
        t.node? (t.lexical p) ≠ some .directory ∧ ∃ before name, Aims t p before name 0) := by
  rw [replaceFile, get_bind]
  cases aimed : t.target p with
  | error kind => exact Or.inl ⟨_, rfl⟩
  | ok target =>
    rw [ofLookup_ok_bind]
    cases named : target.place? with
    | none => exact Or.inl ⟨_, rfl⟩
    | some place =>
      obtain ⟨before, name, slashes, aims, rfl, bare⟩ := aims_of_target aimed named
      cases slashed : target.slashed with
      | true =>
        refine Or.inl ?_
        cases held : t.node? (t.lexical p) with
        | none => exact ⟨_, by simp only [held, if_true]; rfl⟩
        | some node => cases node <;> exact ⟨_, by simp only [held, if_true]; rfl⟩
      | false =>
        obtain rfl := bare slashed
        cases held : t.node? (t.lexical p) with
        | none => exact Or.inr ⟨by simp only [held]; rfl, by simp, _, _, aims⟩
        | some node =>
          cases node with
          | directory => exact Or.inl ⟨_, by simp only [held]; rfl⟩
          | file former => exact Or.inr ⟨by simp only [held]; rfl, by simp, _, _, aims⟩

/-- Making sure of a file fails and changes nothing, finds the file, or puts an empty one where
nothing stood. -/
theorem touch_cases (p : Path) (t : Tree) :
    (∃ e, touch p t = .error e t) ∨ touch p t = .ok () t ∨
      (touch p t = .ok () (t.insert (t.lexical p) (.file .empty)) ∧
        t.node? (t.lexical p) = none ∧ ∃ before name, Aims t p before name 0) := by
  rw [touch, get_bind]
  cases aimed : t.target p with
  | error kind => exact Or.inl ⟨_, rfl⟩
  | ok target =>
    rw [ofLookup_ok_bind]
    cases named : target.place? with
    | none => exact Or.inl ⟨_, rfl⟩
    | some place =>
      obtain ⟨before, name, slashes, aims, rfl, bare⟩ := aims_of_target aimed named
      cases held : t.node? (t.lexical p) with
      | none =>
        cases slashed : target.slashed with
        | true => exact Or.inl ⟨_, by simp only [held, if_true]; rfl⟩
        | false =>
          obtain rfl := bare slashed
          exact Or.inr (Or.inr ⟨by simp only [held]; rfl, rfl, _, _, aims⟩)
      | some node =>
        cases node with
        | directory => exact Or.inl ⟨_, by simp only [held]; rfl⟩
        | file former =>
          cases slashed : target.slashed with
          | true => exact Or.inl ⟨_, by simp only [held, if_true]; rfl⟩
          | false => exact Or.inr (Or.inl (by simp only [held]; rfl))

/-- Making sure of a file adds at most that file, and it is empty. -/
theorem touch_grown (p : Path) (t : Tree) :
    Grown (fun place node => place = t.lexical p ∧ node = .file .empty) t (left (touch p t)) := by
  rcases touch_cases p t with ⟨e, failed⟩ | found | ⟨put, absent, _, _, aims⟩
  · rw [failed]
    exact .refl _ _
  · rw [found]
    exact .refl _ _
  · rw [put]
    exact grown_insert aims.lexical_ne_nil absent ⟨rfl, rfl⟩

/-- Staging changes nothing, and whether it succeeds is settled by the path. -/
theorem stage_run (dir : Path) (t : Tree) :
    stage dir t = match admissible (stagedPath t dir) with
      | .ok _ => .ok () t
      | .error kind => .error (.ofKind kind) t := by
  rw [stage, get_bind]
  cases admissible (stagedPath t dir) <;> rfl

/-- Copying a file adds directories; if it fails that is all, and else the bytes of the source are
put where the path leads, over a file or where nothing stood. -/
theorem publishCopy_cases (source dest : Path) (t : Tree) :
    ∃ middle, Grown Directories t middle ∧
      ((∃ e, publishCopy source dest t = .error e middle) ∨
        ∃ bytes before name, middle.read source = .ok bytes ∧ Aims middle dest before name 0 ∧
          middle.node? (middle.lexical dest) ≠ some .directory ∧
          publishCopy source dest t =
            .ok bytes.size (middle.insert (middle.lexical dest) (.file bytes))) := by
  rw [publishCopy, bind_run]
  have grown := (ensureDir_secures dest.stagingDir t).1
  cases staged : ensureDir dest.stagingDir t with
  | error e middle =>
    rw [staged] at grown
    exact ⟨middle, grown, Or.inl ⟨e, rfl⟩⟩
  | ok _ middle =>
    rw [staged] at grown
    refine ⟨middle, grown, ?_⟩
    have stages := stage_run dest.stagingDir middle
    cases fits : admissible (stagedPath middle dest.stagingDir) with
    | error kind =>
      rw [fits] at stages
      exact Or.inl ⟨.ofKind kind, by simp only [bind_run, stages]⟩
    | ok _ =>
      rw [fits] at stages
      have read := ofRead_run (fun t => t.read source) middle
      cases held : middle.read source with
      | error e =>
        rw [held] at read
        exact Or.inl ⟨e, by simp only [bind_run, stages, read]⟩
      | ok bytes =>
        rw [held] at read
        rcases replaceFile_cases dest bytes middle with
          ⟨e, failed⟩ | ⟨put, undirected, before, name, aims⟩
        · exact Or.inl ⟨e, by simp only [bind_run, stages, read, failed]⟩
        · exact Or.inr ⟨bytes, before, name, rfl, aims, undirected,
            by simp only [bind_run, stages, read, put, pure_run]⟩

end FileM

end RuleDepot
