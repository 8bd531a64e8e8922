import RuleDepot.Files.Content
/-!
Trees that only gain files and directories.  `Grown` says which nodes may be new and that nothing
else changed; whatever a path led to before the growth it leads to afterwards.  Since there are no
links, the location a path leads to is settled by its text: it is `lexical`, in every tree in which
the path leads anywhere.
-/

namespace RuleDepot.Tree

open Std

variable {t t' t'' : Tree} {new wider : Location → Node → Prop} {p : Path}
  {place next other : Location} {node : Node} {piece : String} {bytes : ByteArray}

/-- Nothing of the first tree is gone or changed in the second, and what the second holds beyond
it is allowed by `new`. -/
structure Grown (new : Location → Node → Prop) (t t' : Tree) : Prop where
  workingDir : t'.workingDir = t.workingDir
  kept : ∀ {place node}, t.node? place = some node → t'.node? place = some node
  fresh : ∀ {place node}, t'.node? place = some node → t.node? place = none → new place node

/-- The growth by directories only. -/
def Directories (_ : Location) (node : Node) : Prop :=
  node = .directory

namespace Grown

theorem refl (new : Location → Node → Prop) (t : Tree) : Grown new t t where
  workingDir := rfl
  kept := id
  fresh held absent := by simp [absent] at held

theorem mono (grown : Grown new t t') (allowed : ∀ place node, new place node → wider place node) :
    Grown wider t t' where
  workingDir := grown.workingDir
  kept := grown.kept
  fresh held absent := allowed _ _ (grown.fresh held absent)

theorem trans (first : Grown new t t') (second : Grown new t' t'') : Grown new t t'' where
  workingDir := second.workingDir.trans first.workingDir
  kept held := second.kept (first.kept held)
  fresh {place node} held absent := by
    cases between : t'.node? place with
    | none => exact second.fresh held between
    | some former =>
      have same : former = node := Option.some.inj ((second.kept between).symm.trans held)
      exact same ▸ first.fresh between absent

/-- Where something is new, nothing stood. -/
theorem absent_of_new (grown : Grown new t t') (held : t'.node? place = some node)
    (other : t.node? place ≠ some node) : t.node? place = none := by
  cases former : t.node? place with
  | none => rfl
  | some node => exact absurd (former.trans ((grown.kept former).symm.trans held)) other

end Grown

theorem node?_insert (named : place ≠ []) :
    (t.insert place node).node? other = if other = place then some node else t.node? other := by
  unfold node? insert
  by_cases atRoot : other = []
  · subst atRoot
    simp [named.symm]
  · simp only [atRoot, if_false, ExtTreeMap.getElem?_insert]
    by_cases same : other = place
    · simp [same]
    · simp [same, Ne.symm same]

@[simp] theorem node?_insert_self (named : place ≠ []) :
    (t.insert place node).node? place = some node := by
  simp [node?_insert named]

/-- Putting a node where none was is growth by that node. -/
theorem grown_insert (named : place ≠ []) (absent : t.node? place = none) (allowed : new place node) :
    Grown new t (t.insert place node) where
  workingDir := rfl
  kept {other former} held := by
    have elsewhere : other ≠ place := fun same => by simp [same, absent] at held
    simpa [node?_insert named, elsewhere] using held
  fresh {other found} held missing := by
    rw [node?_insert named] at held
    split at held
    · rename_i same
      cases held
      exact same ▸ allowed
    · simp [missing] at held

/-- What one tree has more than another, it has at most after a node was put in both. -/
theorem Grown.insert (grown : Grown new t t') (named : place ≠ []) (node : Node) :
    Grown new (t.insert place node) (t'.insert place node) where
  workingDir := grown.workingDir
  kept {other former} held := by
    rw [node?_insert named] at held ⊢
    split
    · rename_i same
      rwa [if_pos same] at held
    · rename_i elsewhere
      rw [if_neg elsewhere] at held
      exact grown.kept held
  fresh {other found} held absent := by
    rw [node?_insert named] at held absent
    split at absent
    · cases absent
    · rename_i elsewhere
      rw [if_neg elsewhere] at held
      exact grown.fresh held absent

/-- What is put in a tree that is there in the other one is no more than that one has. -/
theorem Grown.insert_left (grown : Grown new t t') (named : place ≠ []) (there : t'.node? place = some node) :
    Grown new (t.insert place node) t' where
  workingDir := grown.workingDir
  kept {other former} held := by
    rw [node?_insert named] at held
    split at held
    · rename_i same
      rw [same, there, held]
    · exact grown.kept held
  fresh {other found} held absent := by
    rw [node?_insert named] at absent
    split at absent
    · cases absent
    · exact grown.fresh held absent

/-- Where a piece leads lexically: fillers stay, a double dot goes up, a name goes down. -/
def advance (place : Location) (piece : String) : Location :=
  if Path.isFiller piece then place
  else if piece = ".." then place.dropLast
  else place ++ [piece]

/-- Where a path leads by its text alone. -/
def lexical (t : Tree) (p : Path) : Location :=
  p.pieces.foldl advance (t.start p)

/-- Names go down one by one. -/
theorem foldl_advance_down {names : List String}
    (down : ∀ name ∈ names, Path.isFiller name = false ∧ name ≠ "..") (place : Location) :
    names.foldl advance place = place ++ names := by
  induction names generalizing place with
  | nil => simp
  | cons name rest ih =>
    obtain ⟨⟨solid, other⟩, down⟩ := List.forall_mem_cons.mp down
    have first : advance place name = place ++ [name] := by simp [advance, solid, other]
    rw [List.foldl_cons, first, ih down, List.append_assoc, List.singleton_append]

theorem start_congr (same : t'.workingDir = t.workingDir) (p : Path) : t'.start p = t.start p := by
  simp [start, same]

theorem lexical_congr (same : t'.workingDir = t.workingDir) (p : Path) :
    t'.lexical p = t.lexical p := by
  simp [lexical, start_congr same]

theorem Grown.lexical (grown : Grown new t t') (p : Path) : t'.lexical p = t.lexical p :=
  lexical_congr grown.workingDir p

/-- What it takes to go one piece further. -/
theorem follow_eq_ok_iff :
    t.follow place piece = .ok next ↔
      t.node? place = some .directory ∧ next = advance place piece ∧
        (Path.isFiller piece = false → piece ≠ ".." →
          piece.utf8ByteSize ≤ nameLimit ∧ t.node? (place ++ [piece]) ≠ none) := by
  unfold follow advance
  cases held : t.node? place with
  | none => simp
  | some node =>
    cases node with
    | file bytes => simp
    | directory =>
      by_cases filler : Path.isFiller piece = true
      · simp [filler, eq_comm]
      · by_cases up : piece = ".."
        · subst up
          simp [filler, Except.ok.injEq, eq_comm]
        · by_cases long : nameLimit < piece.utf8ByteSize
          · simp [filler, up, long, Nat.not_le.mpr long]
          · have short : piece.utf8ByteSize ≤ nameLimit := Nat.le_of_not_lt long
            by_cases found : t.node? (place ++ [piece]) = none
            · simp [filler, up, long, found]
            · have isSome : (t.node? (place ++ [piece])).isSome = true :=
                Option.isSome_iff_ne_none.mpr found
              simp [filler, up, long, found, short, isSome, eq_comm]

theorem Grown.follow (grown : Grown new t t') (went : t.follow place piece = .ok next) :
    t'.follow place piece = .ok next := by
  rw [follow_eq_ok_iff] at went ⊢
  obtain ⟨directory, leads, named⟩ := went
  refine ⟨grown.kept directory, leads, fun filler up => ?_⟩
  obtain ⟨short, found⟩ := named filler up
  obtain ⟨node, held⟩ := Option.ne_none_iff_exists'.mp found
  exact ⟨short, by simp [grown.kept held]⟩

/-- Following pieces leads to where their text leads. -/
theorem walk_lexical {pieces : List String} (went : pieces.foldlM t.follow place = .ok next) :
    next = pieces.foldl advance place := by
  induction pieces generalizing place with
  | nil =>
    cases went
    rfl
  | cons piece rest ih =>
    rw [List.foldlM_cons] at went
    cases first : t.follow place piece with
    | error kind =>
      rw [first] at went
      cases went
    | ok middle =>
      rw [first] at went
      rw [List.foldl_cons, ← (follow_eq_ok_iff.mp first).2.1]
      exact ih went

theorem Grown.walk {pieces : List String} (grown : Grown new t t')
    (went : pieces.foldlM t.follow place = .ok next) :
    pieces.foldlM t'.follow place = .ok next := by
  induction pieces generalizing place with
  | nil => exact went
  | cons piece rest ih =>
    rw [List.foldlM_cons] at went ⊢
    cases first : t.follow place piece with
    | error kind =>
      rw [first] at went
      cases went
    | ok middle =>
      rw [first] at went
      rw [grown.follow first]
      exact ih went

theorem locate_eq_ok_iff :
    t.locate p = .ok place ↔
      admissible p = .ok () ∧ p.pieces.foldlM t.follow (t.start p) = .ok place := by
  unfold locate
  cases admissible p with
  | error kind => simp [bind, Except.bind]
  | ok _ => simp [bind, Except.bind]

/-- A path leads where its text does or nowhere. -/
theorem locate_lexical (found : t.locate p = .ok place) : place = t.lexical p :=
  walk_lexical (locate_eq_ok_iff.mp found).2

theorem Grown.locate (grown : Grown new t t') (found : t.locate p = .ok place) :
    t'.locate p = .ok place := by
  obtain ⟨fits, went⟩ := locate_eq_ok_iff.mp found
  rw [locate_eq_ok_iff, start_congr grown.workingDir]
  exact ⟨fits, grown.walk went⟩

theorem status_eq_ok_iff :
    t.status p = .ok node ↔ t.locate p = .ok (t.lexical p) ∧ t.node? (t.lexical p) = some node := by
  unfold status
  cases found : t.locate p with
  | error kind => simp [bind, Except.bind]
  | ok place =>
    obtain rfl := locate_lexical found
    simp only [bind, Except.bind, true_and]
    cases t.node? (t.lexical p) <;> simp

theorem Grown.status (grown : Grown new t t') (found : t.status p = .ok node) :
    t'.status p = .ok node := by
  rw [status_eq_ok_iff] at found ⊢
  rw [grown.lexical]
  exact ⟨grown.locate found.1, grown.kept found.2⟩

theorem isFile_iff : t.isFile p = true ↔ ∃ bytes, t.status p = .ok (.file bytes) := by
  unfold isFile
  split
  · rename_i bytes held
    simp [held]
  · rename_i other
    simp only [Bool.false_eq_true, false_iff, not_exists]
    exact other

theorem isDir_iff : t.isDir p = true ↔ t.status p = .ok .directory := by
  unfold isDir
  split
  · rename_i held
    simp [held]
  · rename_i other
    simp only [Bool.false_eq_true, false_iff]
    exact other

theorem reaches_iff : t.reaches p = true ↔ ∃ node, t.status p = .ok node := by
  unfold reaches
  cases t.status p <;> simp [Except.isOk, Except.toBool]

theorem read_eq_ok_iff : t.read p = .ok bytes ↔ t.status p = .ok (.file bytes) := by
  unfold read
  split <;> rename_i held <;> simp [held]

theorem Grown.isFile (grown : Grown new t t') (file : t.isFile p = true) : t'.isFile p = true := by
  obtain ⟨bytes, held⟩ := isFile_iff.mp file
  exact isFile_iff.mpr ⟨bytes, grown.status held⟩

theorem Grown.isDir (grown : Grown new t t') (directory : t.isDir p = true) : t'.isDir p = true :=
  isDir_iff.mpr (grown.status (isDir_iff.mp directory))

theorem Grown.read (grown : Grown new t t') (held : t.read p = .ok bytes) :
    t'.read p = .ok bytes :=
  read_eq_ok_iff.mpr (grown.status (read_eq_ok_iff.mp held))

end RuleDepot.Tree
