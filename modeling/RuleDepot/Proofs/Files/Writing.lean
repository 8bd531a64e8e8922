import Mathlib.Data.List.Infix
import RuleDepot.Proofs.Files.Paving
/-!
Where a file can be written.  Whether bytes can be published at a path is settled by the path and by what
stands on its way, and not by the bytes: the directories in front of its name are there or can be made, and
there will be no directory where the file is to be.
-/

namespace RuleDepot

open Running

variable {t t' : Tree} {p : Path} {place other : Location} {name : String} {before pieces : List String}
  {node : Node} {bytes : ByteArray}

namespace Tree

/-- A file can be written at a path. -/
structure Writable (t : Tree) (p : Path) : Prop where
  /-- The text is one that a path may have. -/
  fits : admissible p = .ok ()
  /-- So is the path of a file to stage the bytes in. -/
  staged : admissible (FileM.stagedPath t p.stagingDir) = .ok ()
  begins : t.node? (t.start p) = some .directory
  /-- The last piece names an entry. -/
  ends : ∃ name ∈ p.pieces.getLast?, ¬ IsDots name
  short : ∀ piece ∈ p.pieces, piece.utf8ByteSize ≤ nameLimit
  /-- Nothing but directories stands in the way. -/
  clear : ∀ front, front <+: p.pieces.dropLast →
    ∀ node ∈ t.node? (front.foldl advance (t.start p)), node = .directory
  /-- No directory stands where the file is to be. -/
  vacant : t.node? (t.lexical p) ≠ some .directory
  /-- Nor would one be made there on the way. -/
  ahead : ∀ front, front <+: p.pieces.dropLast → front.foldl advance (t.start p) ≠ t.lexical p

instance (t : Tree) (p : Path) : Decidable (t.Writable p) :=
  decidable_of_iff (admissible p = .ok () ∧ admissible (FileM.stagedPath t p.stagingDir) = .ok () ∧
      t.node? (t.start p) = some .directory ∧ (∃ name ∈ p.pieces.getLast?, ¬ IsDots name) ∧
      (∀ piece ∈ p.pieces, piece.utf8ByteSize ≤ nameLimit) ∧
      (∀ front ∈ p.pieces.dropLast.inits,
        ∀ node ∈ t.node? (front.foldl advance (t.start p)), node = .directory) ∧
      t.node? (t.lexical p) ≠ some .directory ∧
      ∀ front ∈ p.pieces.dropLast.inits, front.foldl advance (t.start p) ≠ t.lexical p)
    ⟨fun ⟨fits, staged, begins, ends, short, clear, vacant, ahead⟩ =>
        ⟨fits, staged, begins, ends, short, fun front shorter => clear front (by simpa using shorter),
          vacant, fun front shorter => ahead front (by simpa using shorter)⟩,
      fun ⟨fits, staged, begins, ends, short, clear, vacant, ahead⟩ =>
        ⟨fits, staged, begins, ends, short, fun front member => clear front (by simpa using member),
          vacant, fun front member => ahead front (by simpa using member)⟩⟩

private theorem short_of_dots {piece : String} (dots : IsDots piece) : piece.utf8ByteSize ≤ nameLimit := by
  rcases dots with filler | rfl
  · simp only [Path.isFiller, Bool.or_eq_true, beq_iff_eq] at filler
    rcases filler with rfl | rfl <;> decide
  · decide

private theorem short_of_followed (went : pieces.foldlM t.follow place = .ok other) :
    ∀ piece ∈ pieces, piece.utf8ByteSize ≤ nameLimit := by
  induction pieces generalizing place with
  | nil => simp
  | cons piece rest ih =>
    rw [List.foldlM_cons] at went
    obtain ⟨middle, first, later⟩ := ok_of_bind went
    refine List.forall_mem_cons.mpr ⟨?_, ih later⟩
    by_cases dots : IsDots piece
    · exact short_of_dots dots
    · obtain ⟨solid, up⟩ := not_or.mp dots
      exact ((follow_eq_ok_iff.mp first).2.2 (by simpa using solid) up).1

/-- A way can be made if no name on it is too long and no file stands in it. -/
theorem pave_complete (short : ∀ piece ∈ pieces, piece.utf8ByteSize ≤ nameLimit)
    (clear : ∀ front, front <+: pieces →
      ∀ node ∈ t.node? (front.foldl advance place), node = .directory) :
    (t.pave place pieces).2 = true := by
  induction pieces generalizing t place with
  | nil => rfl
  | cons piece rest ih =>
    obtain ⟨fits, short⟩ := List.forall_mem_cons.mp short
    have later : ∀ front, front <+: rest →
        ∀ node ∈ t.node? (front.foldl advance (advance place piece)), node = .directory :=
      fun front shorter => clear (piece :: front) ((List.prefix_cons_inj _).mpr shorter)
    rw [pave]
    split
    · exact ih short later
    · rename_i solid
      rw [advance_name solid] at later
      rw [if_neg (Nat.not_lt.mpr fits)]
      split
      · exact ih short later
      · rename_i bytes held
        cases later [] List.nil_prefix _ held
      · -- What is new is a directory, and nothing else changed.
        apply ih short
        intro front shorter node held
        rw [Option.mem_def, node?_insert (by simp)] at held
        split at held
        · cases held
          rfl
        · exact later front shorter node held

private theorem pave_fresh (held : (t.pave place pieces).1.node? other = some node)
    (absent : t.node? other = none) : ∃ front, front <+: pieces ∧ other = front.foldl advance place := by
  induction pieces generalizing t place with
  | nil =>
    rw [pave, absent] at held
    cases held
  | cons piece rest ih =>
    have behind : (∃ front, front <+: rest ∧ other = front.foldl advance (advance place piece)) →
        ∃ front, front <+: piece :: rest ∧ other = front.foldl advance place := by
      rintro ⟨front, shorter, same⟩
      exact ⟨piece :: front, (List.prefix_cons_inj _).mpr shorter, same⟩
    apply behind
    rw [pave] at held
    split at held
    · exact ih held absent
    · rename_i solid
      rw [advance_name solid]
      split at held
      · rw [absent] at held
        cases held
      · split at held
        · exact ih held absent
        · rw [absent] at held
          cases held
        · by_cases own : other = place ++ [piece]
          · exact ⟨[], List.nil_prefix, own⟩
          · exact ih held (by rwa [node?_insert (by simp), if_neg own])

/-- No directory is made where none stands and none is needed on the way. -/
theorem pave_vacant (vacant : t.node? other ≠ some .directory)
    (ahead : ∀ front, front <+: pieces → front.foldl advance place ≠ other) :
    (t.pave place pieces).1.node? other ≠ some .directory := by
  intro held
  cases former : t.node? other with
  | none =>
    obtain ⟨front, shorter, same⟩ := pave_fresh held former
    exact ahead front shorter same.symm
  | some node =>
    have kept := (pave_grown t place pieces).kept former
    obtain rfl : node = .directory := Option.some.inj (kept.symm.trans held)
    exact vacant former

end Tree

namespace FileM

open RuleDepot.Tree

/-- Bytes can be put where a path leads if it names an entry that is no directory. -/
theorem replaceFile_of_aims (aims : Aims t p before name 0)
    (vacant : t.node? (t.lexical p) ≠ some .directory) :
    replaceFile p bytes t = .ok () (t.insert (t.lexical p) (.file bytes)) := by
  obtain ⟨target, aimed, place, bare⟩ := aims.target
  rw [replaceFile, get_bind, aimed, ofLookup_ok_bind]
  simp only [place, bare rfl]
  cases held : t.node? (t.lexical p) with
  | none => rfl
  | some node =>
    cases node with
    | file former => rfl
    | directory => exact absurd held vacant

/-- A file is staged in the working directory if its path has nothing in front of the name, or else in the
directory that is spelled by what stands there. -/
theorem stagingDir_cases (fits : admissible p = .ok ()) (spelled : p.pieces = before ++ [name])
    (solid : Path.isFiller name = false) :
    (p.stagingDir = ⟨"."⟩ ∧ p.isAbsolute = false ∧ ∀ piece ∈ before, Path.isFiller piece = true) ∨
      (p.parent? = some p.stagingDir ∧ p.stagingDir.text ≠ "" ∧
        (Path.dropFillersAtEnd p.isAbsolute before).length ≤ p.stagingDir.pieces.length) := by
  have filled : p.text ≠ "" := fun blank => by simp [admissible, blank] at fits
  have spelled' : p.pieces = before ++ name :: [] := spelled
  have parent := parent?_of_pieces spelled' solid (by simp)
  obtain ⟨gap, split, hollow⟩ := Path.eq_append_dropFillersAtEnd p.isAbsolute before
  have whole : p.pieces = Path.dropFillersAtEnd p.isAbsolute before ++ (gap ++ [name]) := by
    rw [← List.append_assoc, ← split, spelled]
  generalize same : Path.ofPieces p.isAbsolute (Path.dropFillersAtEnd p.isAbsolute before) = q at parent
  rw [Path.stagingDir, parent]
  simp only
  by_cases blank : q.text = ""
  · obtain ⟨relative, none⟩ := front_of_blank (same ▸ blank) whole filled
    rw [none, List.nil_append] at split
    rw [if_pos (by simpa using blank)]
    exact Or.inl ⟨rfl, relative, split ▸ hollow⟩
  · obtain ⟨-, pieces, -⟩ := spelled_parent same.symm blank whole filled
    rw [if_neg (by simpa using blank)]
    refine Or.inr ⟨rfl, blank, ?_⟩
    rcases pieces with own | ⟨none, -⟩
    · exact Nat.le_of_eq (congrArg List.length own.symm)
    · rw [none]
      exact Nat.zero_le _

/-- That directory is spelled in some way, which begins where the path does. -/
theorem start_stagingDir (fits : admissible p = .ok ()) (spelled : p.pieces = before ++ [name])
    (solid : Path.isFiller name = false) :
    p.stagingDir.text ≠ "" ∧ t.start p.stagingDir = t.start p := by
  rcases stagingDir_cases fits spelled solid with ⟨dot, relative, -⟩ | ⟨parent, filled, -⟩
  · have loose : (Path.mk ".").isAbsolute = false := by decide
    rw [dot]
    exact ⟨by decide, by simp only [start, relative, loose]⟩
  · exact ⟨filled, start_of_parent parent filled⟩

/-- Making sure of the directory to stage a file in makes the way in front of its name. -/
theorem ensureDir_paves (rooted : t.Rooted) (begins : t.node? (t.start p) = some .directory)
    (fits : admissible p = .ok ()) (spelled : p.pieces = before ++ [name])
    (solid : Path.isFiller name = false) :
    Paves (t.pave (t.start p) before) (ensureDir p.stagingDir t) := by
  rcases stagingDir_cases fits spelled solid with ⟨dot, relative, hollow⟩ | ⟨parent, filled, enough⟩
  · have working : t.node? t.workingDir = some .directory := by
      simpa [start, relative] using begins
    rw [dot, ensureDir_of_isDir (isDir_current working), pave_fillers hollow]
    exact .made t
  · have paves := parents_paves begins fits spelled solid (n := p.stagingDir.pieces.length + 2)
      (by omega) (makeChain_paves rooted)
    rw [parent, Option.elim_some] at paves
    change Paves _ (makeDirs p.stagingDir t) at paves
    rw [ensureDir, get_bind]
    by_cases reached : t.reaches p.stagingDir = true
    · simp only [reached, Bool.not_true, Bool.false_eq_true, if_false]
      by_cases there : t.isDir p.stagingDir = true
      · rw [makeDirs_of_isDir there] at paves
        simp only [there, if_true]
        exact paves
      · -- Where something else stands, nothing is made either way.
        obtain ⟨node, found⟩ := reaches_iff.mp reached
        obtain ⟨e, failed, other⟩ := makeDir_of_status found
        rw [makeDirs, ancestors_succ, makeChain_of_settled filled failed other, if_neg there] at paves
        simp only [there]
        generalize t.pave (t.start p) before = way at paves ⊢
        cases paves with
        | barred => exact .barred _ t
    · simp only [reached]
      exact paves

/-- Only where a path begins at a directory can a directory be made sure of. -/
theorem begins_of_ensureDir (ran : ensureDir p t = .ok () t') (filled : p.text ≠ "") :
    t.node? (t.start p) = some .directory := by
  by_contra lost
  have absent : t.isDir p = false := by
    rw [Bool.eq_false_iff]
    intro there
    exact lost (directory_of_passes there ⟨[], List.nil_prefix, rfl⟩)
  rw [ensureDir, get_bind] at ran
  by_cases reached : t.reaches p = true
  · simp only [reached, absent, Bool.not_true, Bool.false_eq_true, if_false] at ran
    cases ran
  · simp only [reached] at ran
    obtain ⟨e, failed⟩ := (makeChain_astray (p.pieces.length + 2) lost).2 filled
    change makeChain _ t = _ at ran
    rw [failed] at ran
    cases ran

private theorem writable_of_publishBytes (ran : publishBytes p bytes t = .ok () t') : t.Writable p := by
  obtain ⟨middle, grown, ⟨e, failed⟩ | ⟨before, name, aims, vacant, -⟩⟩ := publishBytes_cases p bytes t
  · rw [failed] at ran
    cases ran
  have starts : middle.start p = t.start p := start_congr grown.workingDir p
  have spelled : p.pieces = before ++ [name] := aims.pieces
  have fronts : p.pieces.dropLast = before := by rw [spelled, List.dropLast_concat]
  -- Everything in front of the name is a directory by the time that the bytes are put.
  have passed : ∀ front, front <+: before →
      middle.node? (front.foldl advance (t.start p)) = some .directory := by
    rintro front ⟨rest, rfl⟩
    have walked := aims.walked
    rw [starts] at walked
    exact directory_of_walk walked (starts ▸ aims.directory)
  have begins : t.node? (t.start p) = some .directory := by
    obtain ⟨_, _, secured, -⟩ := bind_ok ran
    obtain ⟨filled, same⟩ := start_stagingDir aims.fits spelled aims.solid
    exact same ▸ begins_of_ensureDir secured filled
  refine ⟨aims.fits, admissible_of_publishBytes ran, begins,
    ⟨name, by simp [spelled], not_or.mpr ⟨by simp [aims.solid], aims.down⟩⟩, ?_, ?_, ?_, ?_⟩
  · intro piece member
    rw [spelled] at member
    rcases List.mem_append.mp member with front | last
    · exact short_of_followed aims.walked piece front
    · obtain rfl := List.mem_singleton.mp last
      exact aims.short
  · intro front shorter node held
    have kept := grown.kept held
    rw [passed front (fronts ▸ shorter)] at kept
    exact (Option.some.inj kept).symm
  · intro held
    rw [grown.lexical] at vacant
    exact vacant (grown.kept held)
  · intro front shorter same
    rw [grown.lexical, ← same] at vacant
    exact vacant (passed front (fronts ▸ shorter))

/-- Bytes can be published where a file can be written, whatever they are. -/
theorem publishBytes_of_writable (rooted : t.Rooted) (writable : t.Writable p) (bytes : ByteArray) :
    ∃ t', publishBytes p bytes t = .ok () t' := by
  obtain ⟨name, last, named⟩ := writable.ends
  obtain ⟨solid, down⟩ := not_or.mp named
  rw [Bool.not_eq_true] at solid
  generalize fronts : p.pieces.dropLast = before
  have spelled : p.pieces = before ++ [name] :=
    fronts ▸ (List.dropLast_append_getLast? name last).symm
  have short : ∀ piece ∈ before, piece.utf8ByteSize ≤ nameLimit := fun piece member =>
    writable.short piece (spelled ▸ List.mem_append_left _ member)
  have made : (t.pave (t.start p) before).2 = true :=
    pave_complete short (fronts ▸ writable.clear)
  have grown := pave_grown t (t.start p) before
  obtain ⟨walked, directory⟩ := walk_of_pave rooted writable.begins made
  have vacant : (t.pave (t.start p) before).1.node? (t.lexical p) ≠ some .directory :=
    pave_vacant writable.vacant (fronts ▸ writable.ahead)
  have paves := ensureDir_paves rooted writable.begins writable.fits spelled solid
  generalize t.pave (t.start p) before = way at made grown walked directory vacant paves
  obtain ⟨middle, whole⟩ := way
  cases made
  generalize secured : ensureDir p.stagingDir t = result at paves
  cases paves
  have starts : middle.start p = t.start p := start_congr grown.workingDir p
  have aims : Aims middle p before name 0 :=
    ⟨writable.fits, spelled, starts ▸ walked, starts ▸ directory, solid, down,
      writable.short name (spelled ▸ by simp)⟩
  have staged : stage p.stagingDir middle = .ok () middle := by
    rw [stage_run, stagedPath_congr grown.workingDir, writable.staged]
  refine ⟨middle.insert (middle.lexical p) (.file bytes), ?_⟩
  rw [publishBytes, bind_run, secured]
  simp only [bind_run, staged]
  exact replaceFile_of_aims aims (grown.lexical p ▸ vacant)

/-- **Where a file can be written** is settled by the path and what stands on its way. -/
theorem publishBytes_ok_iff (rooted : t.Rooted) :
    (∃ t', publishBytes p bytes t = .ok () t') ↔ t.Writable p :=
  ⟨fun ⟨_, ran⟩ => writable_of_publishBytes ran,
    fun writable => publishBytes_of_writable rooted writable bytes⟩

end FileM

end RuleDepot
