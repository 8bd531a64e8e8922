import RuleDepot.Proofs.PathPieces
/-!
What can still be read after a file was replaced or taken away.  Replacing a file leaves every
directory and every other file where it is.  Taking a file away takes what stands below it too; but
no path that begins where the path of the file begins can lead there, since it would have to go
through the file.
-/

namespace RuleDepot

variable {t t' : Tree} {p q : Path} {before : List String} {name piece : String} {slashes : Nat}
  {place next other : Location} {node : Node} {bytes content former : ByteArray}

namespace Tree

open Std

/-- What could be gone through before can be gone through afterwards: directories are still there,
and so is everything else, although it need not be the same. -/
structure Passable (t t' : Tree) : Prop where
  workingDir : t'.workingDir = t.workingDir
  directory : ∀ {place}, t.node? place = some .directory → t'.node? place = some .directory
  present : ∀ {place}, t.node? place ≠ none → t'.node? place ≠ none

namespace Passable

private theorem follow (passable : Passable t t') (went : t.follow place piece = .ok next) :
    t'.follow place piece = .ok next := by
  rw [follow_eq_ok_iff] at went ⊢
  obtain ⟨directory, leads, named⟩ := went
  refine ⟨passable.directory directory, leads, fun filler up => ?_⟩
  exact (named filler up).imp_right passable.present

private theorem walk {pieces : List String} (passable : Passable t t')
    (went : pieces.foldlM t.follow place = .ok next) : pieces.foldlM t'.follow place = .ok next := by
  induction pieces generalizing place with
  | nil => exact went
  | cons piece rest ih =>
    rw [List.foldlM_cons] at went ⊢
    obtain ⟨middle, first, later⟩ := Running.ok_of_bind went
    rw [passable.follow first]
    exact ih later

private theorem locate (passable : Passable t t') (found : t.locate p = .ok place) :
    t'.locate p = .ok place := by
  obtain ⟨fits, went⟩ := locate_eq_ok_iff.mp found
  rw [locate_eq_ok_iff, start_congr passable.workingDir]
  exact ⟨fits, passable.walk went⟩

private theorem status (passable : Passable t t') (found : t.locate p = .ok place)
    (held : t'.node? place = some node) : t'.status p = .ok node := by
  obtain rfl := locate_lexical found
  rw [status_eq_ok_iff, lexical_congr passable.workingDir]
  exact ⟨passable.locate found, held⟩

private theorem aims (passable : Passable t t') (aims : Aims t p before name slashes) :
    Aims t' p before name slashes where
  fits := aims.fits
  pieces := aims.pieces
  walked := by
    rw [start_congr passable.workingDir]
    exact passable.walk aims.walked
  directory := by
    rw [start_congr passable.workingDir]
    exact passable.directory aims.directory
  solid := aims.solid
  down := aims.down
  short := aims.short

end Passable

private theorem passable_insert_file (named : place ≠ []) (vacant : t.node? place ≠ some .directory) :
    Passable t (t.insert place (.file bytes)) where
  workingDir := rfl
  directory {other} held := by
    have elsewhere : other ≠ place := fun same => vacant (same ▸ held)
    simpa [node?_insert named, elsewhere] using held
  present {other} held := by
    rw [node?_insert named]
    split
    · simp
    · exact held

/-- After bytes were put at a path they are read there, and all other files are what they were. -/
theorem read_insert_file (bytes : ByteArray) (aims : Aims t p before name 0)
    (vacant : t.node? (t.lexical p) ≠ some .directory) :
    (t.insert (t.lexical p) (.file bytes)).read p = .ok bytes ∧
      ∀ q content, t.read q = .ok content → t.lexical q ≠ t.lexical p →
        (t.insert (t.lexical p) (.file bytes)).read q = .ok content := by
  have passable : Passable t (t.insert (t.lexical p) (.file bytes)) :=
    passable_insert_file aims.lexical_ne_nil vacant
  constructor
  · refine read_eq_ok_iff.mpr ((passable.aims aims).status ?_ (Or.inl rfl))
    exact node?_insert_self aims.lexical_ne_nil
  · intro q content read elsewhere
    obtain ⟨found, held⟩ := status_eq_ok_iff.mp (read_eq_ok_iff.mp read)
    refine read_eq_ok_iff.mpr (passable.status found ?_)
    rw [node?_insert aims.lexical_ne_nil, if_neg elsewhere]
    exact held

theorem node?_erase (apart : ¬ place <+: other) : (t.erase place).node? other = t.node? other := by
  have kept : place.isPrefixOf other = false := by
    rw [← Bool.not_eq_true, List.isPrefixOf_iff_prefix]
    exact apart
  unfold node? erase
  split
  · rfl
  · cases held : t.nodes[other]? <;> simp [ExtTreeMap.getElem?_filter, kept, held]

private theorem below_of_walk {pieces : List String} (file : t.node? place = some (.file former))
    (below : place <+: other) (went : pieces.foldlM t.follow other = .ok next) : place <+: next := by
  induction pieces generalizing other with
  | nil =>
    cases went
    exact below
  | cons piece rest ih =>
    rw [List.foldlM_cons] at went
    obtain ⟨middle, first, later⟩ := Running.ok_of_bind went
    refine ih ?_ later
    obtain ⟨held, rfl, -⟩ := follow_eq_ok_iff.mp first
    have strictly : place ≠ other := fun same => by simp [← same, file] at held
    unfold advance
    split
    · exact below
    · split
      · obtain ⟨rest, rfl⟩ := below
        have more : rest ≠ [] := fun none => strictly (by simp [none])
        rw [List.dropLast_append_of_ne_nil more]
        exact List.prefix_append ..
      · exact below.trans (List.prefix_append ..)

private theorem start_not_below (aims : Aims t p before name slashes)
    (file : t.node? (t.lexical p) = some (.file former)) : ¬ t.lexical p <+: t.start p := by
  intro below
  have inside := (below_of_walk file below aims.walked).length_le
  rw [aims.lexical_eq, List.length_append, List.length_singleton] at inside
  omega

private theorem walk_erase {pieces : List String} (file : t.node? place = some (.file former))
    (apart : ¬ place <+: other) (went : pieces.foldlM t.follow other = .ok next)
    (ends : next ≠ place) :
    pieces.foldlM (t.erase place).follow other = .ok next ∧ ¬ place <+: next := by
  induction pieces generalizing other with
  | nil =>
    cases went
    exact ⟨rfl, apart⟩
  | cons piece rest ih =>
    rw [List.foldlM_cons] at went ⊢
    obtain ⟨middle, first, later⟩ := Running.ok_of_bind went
    obtain ⟨held, leads, named⟩ := follow_eq_ok_iff.mp first
    have clear : ¬ place <+: middle := by
      intro inside
      have reached : middle = place := by
        rw [leads] at inside ⊢
        unfold advance at inside ⊢
        split at inside
        · exact absurd inside apart
        · split at inside
          · exact absurd (inside.trans (List.dropLast_prefix other)) apart
          · rename_i solid down
            simp only [solid, down, if_false, Bool.false_eq_true]
            rcases List.prefix_concat_iff.mp inside with same | inside
            · exact same.symm
            · exact absurd inside apart
      -- Nothing can be followed from the file, so the walk ends there.
      cases rest with
      | nil =>
        cases later
        exact ends reached
      | cons piece' rest =>
        rw [List.foldlM_cons] at later
        obtain ⟨_, second, -⟩ := Running.ok_of_bind later
        have directory := (follow_eq_ok_iff.mp second).1
        rw [reached, file] at directory
        cases directory
    have first' : (t.erase place).follow other piece = .ok middle := by
      refine follow_eq_ok_iff.mpr ⟨by rw [node?_erase apart, held], leads, fun filler up => ?_⟩
      have down : middle = other ++ [piece] := by
        rw [leads]
        simp [advance, filler, up]
      rw [← down, node?_erase clear, down]
      exact named filler up
    rw [first']
    exact ih clear later

/-- After a file was taken away, other files are read as before by paths that begin where its own
does. -/
theorem read_erase (aims : Aims t p before name slashes)
    (file : t.node? (t.lexical p) = some (.file former)) (same : q.isAbsolute = p.isAbsolute)
    (read : t.read q = .ok content) (elsewhere : t.lexical q ≠ t.lexical p) :
    (t.erase (t.lexical p)).read q = .ok content := by
  obtain ⟨found, held⟩ := status_eq_ok_iff.mp (read_eq_ok_iff.mp read)
  obtain ⟨fits, went⟩ := locate_eq_ok_iff.mp found
  have begins : t.start q = t.start p := by simp [start, same]
  obtain ⟨went', clear⟩ := walk_erase file (begins ▸ start_not_below aims file) went elsewhere
  have workingDir : (t.erase (t.lexical p)).workingDir = t.workingDir := rfl
  rw [read_eq_ok_iff, status_eq_ok_iff, lexical_congr workingDir, locate_eq_ok_iff,
    start_congr workingDir, node?_erase clear]
  exact ⟨⟨fits, went'⟩, held⟩

/-- All files but the one at a path are kept, as far as paths tell that begin where that one does. -/
structure Keeps (t : Tree) (p : Path) (t' : Tree) : Prop where
  workingDir : t'.workingDir = t.workingDir
  read : ∀ (q : Path) content, q.isAbsolute = p.isAbsolute → t.lexical q ≠ t.lexical p →
    t.read q = .ok content → t'.read q = .ok content

theorem Grown.keeps {allowed : Location → Node → Prop} (grown : Grown allowed t t') (p : Path) :
    t.Keeps p t' :=
  ⟨grown.workingDir, fun _ _ _ _ => grown.read⟩

theorem Keeps.trans {t'' : Tree} (first : t.Keeps p t') (second : t'.Keeps p t'') :
    t.Keeps p t'' where
  workingDir := second.workingDir.trans first.workingDir
  read q content same elsewhere read := by
    refine second.read q content same ?_ (first.read q content same elsewhere read)
    rwa [lexical_congr first.workingDir, lexical_congr first.workingDir]

/-- A file of another name in the same directory is kept. -/
theorem Keeps.sibling {s : String} (keeps : t.Keeps (p / name) t') (named : Path.IsName name)
    (named' : Path.IsName s) (differ : s ≠ name) (read : t.read (p / s) = .ok content) :
    t'.read (p / s) = .ok content := by
  refine keeps.read (p / s) content ?_ ?_ read
  · rw [(Path.pieces_join p named).1, (Path.pieces_join p named').1]
  · rw [lexical_join t named, lexical_join t named']
    simpa using differ

end Tree

namespace FileM

open RuleDepot.Tree Running

/-- Publishing bytes adds directories; if it succeeds, the bytes are put where the path leads, over
a file or where nothing stood. -/
theorem publishBytes_cases (p : Path) (bytes : ByteArray) (t : Tree) :
    ∃ middle, Grown Directories t middle ∧
      ((∃ e, publishBytes p bytes t = .error e middle) ∨
        ∃ before name, Aims middle p before name 0 ∧
          middle.node? (middle.lexical p) ≠ some .directory ∧
          publishBytes p bytes t = .ok () (middle.insert (middle.lexical p) (.file bytes))) := by
  rw [publishBytes, bind_run]
  have grown := (ensureDir_secures p.stagingDir t).1
  cases staged : ensureDir p.stagingDir t with
  | error e middle =>
    rw [staged] at grown
    exact ⟨middle, grown, Or.inl ⟨e, rfl⟩⟩
  | ok _ middle =>
    rw [staged] at grown
    refine ⟨middle, grown, ?_⟩
    have stages := stage_run p.stagingDir middle
    cases fits : admissible (stagedPath middle p.stagingDir) with
    | error kind =>
      rw [fits] at stages
      exact Or.inl ⟨.ofKind kind, by simp only [bind_run, stages]⟩
    | ok _ =>
      rw [fits] at stages
      rcases replaceFile_cases p bytes middle with ⟨e, failed⟩ | ⟨put, vacant, before, name, aims⟩
      · exact Or.inl ⟨e, by simp only [bind_run, stages, failed]⟩
      · exact Or.inr ⟨before, name, aims, vacant, by simp only [bind_run, stages, put]⟩

/-- Bytes that were published are read, and all other files are what they were. -/
theorem read_publishBytes (ran : publishBytes p bytes t = .ok () t') :
    t'.read p = .ok bytes ∧ t'.workingDir = t.workingDir ∧
      ∀ q content, t.lexical q ≠ t.lexical p → t.read q = .ok content → t'.read q = .ok content := by
  obtain ⟨middle, grown, ⟨e, failed⟩ | ⟨before, name, aims, vacant, put⟩⟩ :=
    publishBytes_cases p bytes t
  · rw [failed] at ran
    cases ran
  · rw [put] at ran
    cases ran
    obtain ⟨own, others⟩ := read_insert_file bytes aims vacant
    refine ⟨own, grown.workingDir, fun q content elsewhere read => ?_⟩
    refine others q content (grown.read read) ?_
    rwa [grown.lexical, grown.lexical]

/-- Taking a file away fails and changes nothing, or a file stands there and goes. -/
theorem removeFile_cases (p : Path) (t : Tree) :
    (∃ e, removeFile p t = .error e t) ∨
      ∃ former, removeFile p t = .ok () (t.erase (t.lexical p)) ∧
        t.locate p = .ok (t.lexical p) ∧ t.node? (t.lexical p) = some (.file former) := by
  rw [removeFile, get_bind]
  cases found : t.locate p with
  | error kind => exact Or.inl ⟨_, rfl⟩
  | ok place =>
    obtain rfl := locate_lexical found
    rw [ofLookup_ok_bind]
    cases t.node? (t.lexical p) with
    | none => exact Or.inl ⟨_, rfl⟩
    | some node =>
      cases node with
      | directory => exact Or.inl ⟨_, rfl⟩
      | file former => exact Or.inr ⟨former, rfl, rfl, rfl⟩

/-- After a file of a name in a directory was taken away, other files are what they were. -/
theorem keeps_removeFile (named : Path.IsName name) (ran : removeFile (p / name) t = .ok () t') :
    t.Keeps (p / name) t' := by
  rcases removeFile_cases (p / name) t with ⟨e, failed⟩ | ⟨former, gone, found, file⟩
  · rw [failed] at ran
    cases ran
  · rw [gone] at ran
    cases ran
    obtain ⟨before, aims⟩ := aims_of_found named found
    exact ⟨rfl, fun q content same elsewhere read => read_erase aims file same read elsewhere⟩

end FileM

end RuleDepot
