import RuleDepot.Proofs.Files.Parents
import RuleDepot.Proofs.Files.Replacing
/-!
The way of a path, and what stands on what.  A path passes the locations that its pieces lead to one
after another, and if it leads to a directory they are all directories.  In a tree that a file system
can hold, everything stands in a directory; so taking a file away takes nothing else away.
-/

namespace RuleDepot.Tree

open Std

variable {t t' t'' : Tree} {p q : Path} {place other : Location} {node : Node} {s : String}
  {made put made' put' : Location → Prop} {bytes former : ByteArray}

/-- What begins a list that is put together ends in the first part of it or goes on into the second. -/
theorem prefix_append_cases {α : Type} {front before behind : List α}
    (shorter : front <+: before ++ behind) :
    front <+: before ∨ ∃ part, front = before ++ part ∧ part <+: behind := by
  obtain ⟨rest, split⟩ := shorter
  rcases List.append_eq_append_iff.mp split with ⟨more, same, -⟩ | ⟨part, same, rest'⟩
  · exact Or.inl ⟨more, same.symm⟩
  · exact Or.inr ⟨part, same, rest, rest'.symm⟩

/-- A path leads through a location. -/
def Passes (t : Tree) (p : Path) (place : Location) : Prop :=
  ∃ front, front <+: p.pieces ∧ place = front.foldl advance (t.start p)

theorem passes_congr (same : t'.workingDir = t.workingDir) (p : Path) (place : Location) :
    t'.Passes p place ↔ t.Passes p place := by
  simp only [Passes, start_congr same]

theorem passes_lexical (t : Tree) (p : Path) : t.Passes p (t.lexical p) :=
  ⟨p.pieces, List.prefix_rfl, rfl⟩

/-- Whatever is gone through is the end or a directory. -/
theorem passed_of_walk {front rest : List String} {start next : Location}
    (went : (front ++ rest).foldlM t.follow start = .ok next) :
    front.foldl advance start = next ∨ t.node? (front.foldl advance start) = some .directory := by
  rw [List.foldlM_append] at went
  obtain ⟨middle, first, later⟩ := Running.ok_of_bind went
  obtain rfl := walk_lexical first
  cases rest with
  | nil =>
    cases later
    exact Or.inl rfl
  | cons piece rest =>
    rw [List.foldlM_cons] at later
    obtain ⟨_, second, -⟩ := Running.ok_of_bind later
    exact Or.inr (follow_eq_ok_iff.mp second).1

/-- Whatever is gone through on the way to a directory is one. -/
theorem directory_of_walk {front rest : List String} {start next : Location}
    (went : (front ++ rest).foldlM t.follow start = .ok next)
    (ends : t.node? next = some .directory) :
    t.node? (front.foldl advance start) = some .directory := by
  rcases passed_of_walk went with same | directory
  · rw [same, ends]
  · exact directory

/-- What a path passes that leads somewhere is where it leads or a directory. -/
theorem passed_of_locate (found : t.locate p = .ok other) (passes : t.Passes p place) :
    place = t.lexical p ∨ t.node? place = some .directory := by
  obtain ⟨front, ⟨rest, whole⟩, rfl⟩ := passes
  have went := (locate_eq_ok_iff.mp found).2
  rw [← whole] at went
  rw [← locate_lexical found]
  exact passed_of_walk went

/-- The pieces of a path lead to a directory, whether or not the text is one that a path may have. -/
structure Enters (t : Tree) (p : Path) : Prop where
  walked : p.pieces.foldlM t.follow (t.start p) = .ok (t.lexical p)
  held : t.node? (t.lexical p) = some .directory

theorem enters_of_isDir (directory : t.isDir p = true) : t.Enters p := by
  obtain ⟨leads, held⟩ := status_eq_ok_iff.mp (isDir_iff.mp directory)
  exact ⟨(locate_eq_ok_iff.mp leads).2, held⟩

/-- Whatever is passed on the way to a directory is one. -/
theorem Enters.directory (enters : t.Enters p) (passes : t.Passes p place) :
    t.node? place = some .directory := by
  obtain ⟨front, ⟨rest, whole⟩, rfl⟩ := passes
  have walked := enters.walked
  rw [← whole] at walked
  exact directory_of_walk walked enters.held

/-- A path to a directory passes directories only. -/
theorem directory_of_passes (directory : t.isDir p = true) (passes : t.Passes p place) :
    t.node? place = some .directory :=
  (enters_of_isDir directory).directory passes

/-- Pieces can be followed if they can in another tree and all that they pass there are directories
here. -/
theorem walk_of_passed {pieces : List String} {start next : Location}
    (went : pieces.foldlM t.follow start = .ok next)
    (passed : ∀ front, front <+: pieces → t'.node? (front.foldl advance start) = some .directory) :
    pieces.foldlM t'.follow start = .ok next := by
  induction pieces generalizing start with
  | nil => exact went
  | cons piece rest ih =>
    rw [List.foldlM_cons] at went ⊢
    obtain ⟨middle, first, later⟩ := Running.ok_of_bind went
    obtain ⟨-, rfl, named⟩ := follow_eq_ok_iff.mp first
    have next := passed [piece] (by simp)
    rw [List.foldl_cons, List.foldl_nil] at next
    have entered : t'.follow start piece = .ok (advance start piece) := by
      refine follow_eq_ok_iff.mpr ⟨passed [] List.nil_prefix, rfl, fun solid up => ?_⟩
      have down : advance start piece = start ++ [piece] := by simp [advance, solid, up]
      rw [down] at next
      exact ⟨(named solid up).1, by simp [next]⟩
    rw [entered]
    exact ih later fun front shorter => passed (piece :: front) ((List.prefix_cons_inj _).mpr shorter)

theorem Enters.of_passed (enters : t.Enters p) (same : t'.workingDir = t.workingDir)
    (passed : ∀ {place}, t.Passes p place → t'.node? place = some .directory) : t'.Enters p := by
  have leads : t'.lexical p = t.lexical p := lexical_congr same p
  refine ⟨?_, leads ▸ passed (passes_lexical t p)⟩
  rw [start_congr same, leads]
  exact walk_of_passed enters.walked fun front shorter => passed ⟨front, shorter, rfl⟩

/-- A path leads to a directory if it does so in another tree and all that it passes there are
directories here. -/
theorem isDir_of_passed (same : t'.workingDir = t.workingDir) (directory : t.isDir p = true)
    (passed : ∀ {place}, t.Passes p place → t'.node? place = some .directory) :
    t'.isDir p = true := by
  obtain ⟨leads, -⟩ := status_eq_ok_iff.mp (isDir_iff.mp directory)
  have enters := (enters_of_isDir directory).of_passed same passed
  rw [isDir_iff, status_eq_ok_iff, locate_eq_ok_iff]
  exact ⟨⟨(locate_eq_ok_iff.mp leads).1, enters.walked⟩, enters.held⟩

/-- A name behind a path adds one location to its way. -/
theorem passes_join (named : Path.IsName s) (passes : t.Passes (p / s) place) :
    t.Passes p place ∨ place = t.lexical p ++ [s] := by
  obtain ⟨absolute, before, trail, own, blank, whole⟩ := Path.pieces_join p named
  obtain ⟨front, shorter, rfl⟩ := passes
  rw [whole] at shorter
  rcases List.prefix_concat_iff.mp shorter with rfl | shorter
  · refine Or.inr ?_
    rw [← lexical_join t named, lexical, whole]
  · refine Or.inl ⟨front, ?_, by simp only [start, absolute]⟩
    rw [own]
    exact shorter.trans (List.prefix_append _ _)

/-- A parent that is not empty is spelled by the first pieces of the path. -/
theorem spelled_of_parent (parent : p.parent? = some q) (filled : q.text ≠ "") :
    q.isAbsolute = p.isAbsolute ∧ ∃ front rest, p.pieces = front ++ rest ∧
      (q.pieces = front ∨ front = [] ∧ q.pieces = [""]) := by
  obtain ⟨front, gap, last, fillers, whole, -, -, same⟩ := Path.parent?_eq_some parent
  have named : p.text ≠ "" := by
    intro blank
    obtain rfl : p = ⟨""⟩ := by cases p; exact congrArg Path.mk blank
    have none : (Path.mk "").parent? = none := by decide
    rw [none] at parent
    cases parent
  rw [List.append_assoc] at whole
  obtain ⟨absolute, pieces, -⟩ := spelled_parent same filled whole named
  exact ⟨absolute, front, _, whole, pieces⟩

theorem start_of_parent (parent : p.parent? = some q) (filled : q.text ≠ "") : t.start q = t.start p := by
  simp only [start, (spelled_of_parent parent filled).1]

/-- A parent that is not empty is on the way of the path. -/
theorem passes_of_parent (parent : p.parent? = some q) (filled : q.text ≠ "")
    (passes : t.Passes q place) : t.Passes p place := by
  obtain ⟨-, front, rest, whole, pieces⟩ := spelled_of_parent parent filled
  have begins : t.start q = t.start p := start_of_parent parent filled
  obtain ⟨part, shorter, rfl⟩ := passes
  rcases pieces with pieces | ⟨none, pieces⟩
  · refine ⟨part, ?_, by rw [begins]⟩
    rw [whole]
    exact (pieces ▸ shorter).trans (List.prefix_append _ _)
  · refine ⟨[], List.nil_prefix, ?_⟩
    have fillers : ∀ piece ∈ part, Path.isFiller piece = true := by
      intro piece member
      have inside := shorter.subset member
      rw [pieces, List.mem_singleton] at inside
      rw [inside]
      rfl
    rw [foldl_advance_fillers fillers, begins]
    rfl

/-- The directory that a file is staged in is on its way. -/
theorem passes_of_stagingDir (parent : p.parent? ≠ none) (passes : t.Passes p.stagingDir place) :
    t.Passes p place := by
  obtain ⟨q, known⟩ := Option.ne_none_iff_exists'.mp parent
  simp only [Path.stagingDir, known] at passes
  split at passes
  · rename_i blank
    obtain ⟨front, gap, last, fillers, whole, -, -, same⟩ := Path.parent?_eq_some known
    have relative : p.isAbsolute = false := by
      cases absolute : p.isAbsolute with
      | false => rfl
      | true =>
        have text : q.text = "" := by simpa using blank
        have spelled := Path.toList_ofPieces p.isAbsolute front
        rw [← same, text, absolute] at spelled
        simp at spelled
    obtain ⟨part, shorter, rfl⟩ := passes
    have fillers : ∀ piece ∈ part, Path.isFiller piece = true := by
      intro piece member
      have inside := shorter.subset member
      have pieces : (Path.mk ".").pieces = ["."] := by decide
      rw [pieces, List.mem_singleton] at inside
      rw [inside]
      rfl
    rw [foldl_advance_fillers fillers]
    refine ⟨[], List.nil_prefix, ?_⟩
    have begins : (Path.mk ".").isAbsolute = false := by decide
    simp only [start, relative, begins, List.foldl_nil, Bool.false_eq_true, if_false]
  · rename_i filled
    exact passes_of_parent known (by simpa using filled) passes

/-- The directory in which a name behind a path is staged is on the way of that path. -/
theorem passes_of_stagingDir_join (named : Path.IsName s) (passes : t.Passes (p / s).stagingDir place) :
    t.Passes p place := by
  obtain ⟨q, front, fillers, parent, same, own, -, spelled⟩ := parent?_of_join (d := p) named
  have blank {part : List String} (shorter : part <+: ["."] ∨ part <+: [""]) :
      part.foldl advance (t.start p) = t.start p := by
    refine foldl_advance_fillers (fun piece member => ?_) _
    rcases shorter with shorter | shorter <;>
      rw [List.mem_singleton.mp (shorter.subset member)] <;> rfl
  simp only [Path.stagingDir, parent] at passes
  obtain ⟨part, shorter, rfl⟩ := passes
  split at shorter
  · rename_i hollow
    have relative : p.isAbsolute = false := by
      cases absolute : p.isAbsolute with
      | false => rfl
      | true =>
        have text : q.text = "" := by simpa using hollow
        have letters := Path.toList_ofPieces p.isAbsolute front
        rw [← same, text, absolute] at letters
        simp at letters
    have begins : t.start (Path.mk ".") = t.start p := by
      have dot : (Path.mk ".").isAbsolute = false := by decide
      simp only [start, relative, dot]
    have pieces : (Path.mk ".").pieces = ["."] := by decide
    rw [if_pos hollow, begins, blank (Or.inl (pieces ▸ shorter))]
    exact ⟨[], List.nil_prefix, rfl⟩
  · rename_i filled
    obtain ⟨absolute, pieces⟩ := spelled (by simpa using filled)
    have begins : t.start q = t.start p := by simp only [start, absolute]
    rw [if_neg filled, begins]
    rcases pieces with pieces | ⟨-, pieces⟩
    · exact ⟨part, own ▸ (pieces ▸ shorter).trans (List.prefix_append _ _), rfl⟩
    · rw [blank (Or.inr (pieces ▸ shorter))]
      exact ⟨[], List.nil_prefix, rfl⟩

/-- Everything stands in a directory. -/
def Rooted (t : Tree) : Prop :=
  ∀ {place node}, t.node? place = some node → t.node? place.dropLast = some .directory

/-- It is enough to look at what a tree lists. -/
theorem rooted_iff (t : Tree) :
    t.Rooted ↔ ∀ entry ∈ t.nodes.toList, t.node? entry.1.dropLast = some .directory := by
  constructor
  · intro rooted entry member
    by_cases top : entry.1 = []
    · simp [top, node?]
    · have held : t.node? entry.1 = some entry.2 := by
        rw [node?, if_neg top]
        exact ExtTreeMap.mem_toList_iff_getElem?_eq_some.mp member
      exact rooted held
  · intro listed place node held
    by_cases top : place = []
    · simp [top, node?]
    · rw [node?, if_neg top] at held
      exact listed (place, node) (ExtTreeMap.mem_toList_iff_getElem?_eq_some.mpr held)

instance (t : Tree) : Decidable t.Rooted :=
  decidable_of_iff _ t.rooted_iff.symm

/-- Whatever something stands below is a directory.  The induction is on the names in between, from
the last one up. -/
theorem Rooted.above (rooted : t.Rooted) (held : t.node? place = some node) (below : other <+: place)
    (strictly : other ≠ place) : t.node? other = some .directory := by
  obtain ⟨rest, rfl⟩ := below
  obtain ⟨back, rfl⟩ : ∃ back : List String, rest = back.reverse := ⟨rest.reverse, by simp⟩
  induction back generalizing node with
  | nil => simp at strictly
  | cons last back ih =>
    have parent := rooted held
    rw [List.reverse_cons, ← List.append_assoc, List.dropLast_concat] at parent
    by_cases top : back = []
    · rwa [top, List.reverse_nil, List.append_nil] at parent
    · exact ih parent (by simpa using top)

/-- Nothing stands below a file, or where nothing stands. -/
theorem Rooted.absent_below (rooted : t.Rooted) (solid : t.node? place ≠ some .directory)
    (below : place <+: other) (strictly : place ≠ other) : t.node? other = none := by
  cases held : t.node? other with
  | none => rfl
  | some node => exact absurd (rooted.above held below strictly) solid

theorem Rooted.insert (rooted : t.Rooted) (named : place ≠ [])
    (parent : t.node? place.dropLast = some .directory)
    (fits : node = .directory ∨ t.node? place ≠ some .directory) : (t.insert place node).Rooted := by
  intro other found held
  have above : place.dropLast ≠ place := fun same => by
    have shorter := congrArg List.length same
    have filled := List.length_pos_iff.mpr named
    rw [List.length_dropLast] at shorter
    omega
  rw [node?_insert named] at held ⊢
  split at held
  · rename_i same
    rw [same, if_neg above, parent]
  · have former := rooted held
    split
    · rename_i same
      rcases fits with rfl | vacant
      · rfl
      · exact absurd (same ▸ former) vacant
    · exact former

theorem rooted_empty : empty.Rooted := by
  intro place node held
  by_cases top : place = []
  · subst top
    rfl
  · simp [node?, empty, top] at held

theorem node?_erase_below (named : place ≠ []) (below : place <+: other) :
    (t.erase place).node? other = none := by
  have filled : other ≠ [] := by
    rintro rfl
    exact named (List.prefix_nil.mp below)
  have inside : place.isPrefixOf other = true := List.isPrefixOf_iff_prefix.mpr below
  simp [node?, filled, erase, ExtTreeMap.getElem?_filter, inside]

theorem Rooted.erase (rooted : t.Rooted) (named : place ≠ []) : (t.erase place).Rooted := by
  intro other found held
  by_cases below : place <+: other
  · rw [node?_erase_below named below] at held
    cases held
  · rw [node?_erase below] at held
    rw [node?_erase fun inside => below (inside.trans (List.dropLast_prefix other))]
    exact rooted held

/-- Directories are made at some locations, and files are put at others or taken away there.
Everything else stays, and no directory goes. -/
structure Edited (made put : Location → Prop) (t t' : Tree) : Prop where
  workingDir : t'.workingDir = t.workingDir
  rooted : t'.Rooted
  directory : ∀ {place}, t.node? place = some .directory → t'.node? place = some .directory
  elsewhere : ∀ {place}, ¬ put place → t'.node? place = t.node? place ∨
    made place ∧ t.node? place = none ∧ t'.node? place = some .directory

namespace Edited

theorem refl (rooted : t.Rooted) : Edited made put t t :=
  ⟨rfl, rooted, id, fun _ => Or.inl rfl⟩

theorem trans (first : Edited made put t t') (second : Edited made put t' t'') :
    Edited made put t t'' where
  workingDir := second.workingDir.trans first.workingDir
  rooted := second.rooted
  directory held := second.directory (first.directory held)
  elsewhere {place} out := by
    rcases second.elsewhere out with same | ⟨own, absent, held⟩
    · rcases first.elsewhere out with same' | ⟨own, absent, held⟩
      · exact Or.inl (same.trans same')
      · exact Or.inr ⟨own, absent, same.trans held⟩
    · rcases first.elsewhere out with same' | ⟨-, -, held'⟩
      · exact Or.inr ⟨own, same' ▸ absent, held⟩
      · rw [held'] at absent
        cases absent

theorem mono (edited : Edited made put t t') (wider : ∀ place, made place → made' place)
    (wider' : ∀ place, put place → put' place) : Edited made' put' t t' where
  workingDir := edited.workingDir
  rooted := edited.rooted
  directory := edited.directory
  elsewhere out := (edited.elsewhere fun inside => out (wider' _ inside)).imp_right
    (And.imp_left (wider _))

theorem lexical (edited : Edited made put t t') (p : Path) : t'.lexical p = t.lexical p :=
  lexical_congr edited.workingDir p

/-- Where nothing is made or put, nothing changes. -/
theorem same (edited : Edited made put t t') (unmade : ¬ made place) (unput : ¬ put place) :
    t'.node? place = t.node? place :=
  (edited.elsewhere unput).resolve_right fun changed => unmade changed.1

/-- What stands where no file is put stays. -/
theorem kept (edited : Edited made put t t') (unput : ¬ put place) (held : t.node? place = some node) :
    t'.node? place = some node := by
  rcases edited.elsewhere unput with same | ⟨-, absent, -⟩
  · rw [same, held]
  · rw [absent] at held
    cases held

/-- A file that stands where none is put stood there before. -/
theorem file (edited : Edited made put t t') (unput : ¬ put place)
    (held : t'.node? place = some (.file bytes)) : t.node? place = some (.file bytes) := by
  rcases edited.elsewhere unput with same | ⟨-, -, directory⟩
  · rwa [← same]
  · rw [directory] at held
    cases held

theorem enters (edited : Edited made put t t') (enters : t.Enters p) : t'.Enters p :=
  enters.of_passed edited.workingDir fun passes => edited.directory (enters.directory passes)

/-- On the way to a directory there is nothing to make. -/
theorem of_enters (edited : Edited (fun place => t.Passes p place ∨ made place) put t t')
    (enters : t.Enters p) : Edited made put t t' where
  workingDir := edited.workingDir
  rooted := edited.rooted
  directory := edited.directory
  elsewhere out := by
    rcases edited.elsewhere out with same | ⟨passes | own, absent, held⟩
    · exact Or.inl same
    · rw [enters.directory passes] at absent
      cases absent
    · exact Or.inr ⟨own, absent, held⟩

/-- Paths to directories lead there still. -/
theorem isDir (edited : Edited made put t t') (directory : t.isDir p = true) : t'.isDir p = true :=
  isDir_of_passed edited.workingDir directory fun passes =>
    edited.directory (directory_of_passes directory passes)

end Edited

/-- Making a directory where nothing stood. -/
theorem edited_directory (rooted : t.Rooted) (named : place ≠ [])
    (parent : t.node? place.dropLast = some .directory) (absent : t.node? place = none)
    (allowed : made place) : Edited made put t (t.insert place .directory) where
  workingDir := rfl
  rooted := rooted.insert named parent (Or.inl rfl)
  directory {other} held := by
    rw [node?_insert named]
    split
    · rfl
    · exact held
  elsewhere {other} _ := by
    rw [node?_insert named]
    split
    · rename_i same
      exact Or.inr ⟨same ▸ allowed, same ▸ absent, rfl⟩
    · exact Or.inl rfl

/-- Putting a file in a directory, over another one or where nothing stood. -/
theorem edited_file (rooted : t.Rooted) (named : place ≠ [])
    (parent : t.node? place.dropLast = some .directory) (vacant : t.node? place ≠ some .directory)
    (allowed : put place) : Edited made put t (t.insert place (.file bytes)) where
  workingDir := rfl
  rooted := rooted.insert named parent (Or.inr vacant)
  directory {other} held := by
    have elsewhere : other ≠ place := fun same => vacant (same ▸ held)
    rwa [node?_insert named, if_neg elsewhere]
  elsewhere {other} out := by
    have elsewhere : other ≠ place := fun same => out (same ▸ allowed)
    exact Or.inl (by rw [node?_insert named, if_neg elsewhere])

/-- Taking a file away. -/
theorem edited_erase (rooted : t.Rooted) (file : t.node? place = some (.file former))
    (allowed : put place) : Edited made put t (t.erase place) := by
  have named : place ≠ [] := fun top => by simp [node?, top] at file
  have solid : t.node? place ≠ some .directory := by simp [file]
  have others : ∀ {other}, other ≠ place → (t.erase place).node? other = t.node? other := by
    intro other differ
    by_cases below : place <+: other
    · rw [node?_erase_below named below, rooted.absent_below solid below (Ne.symm differ)]
    · exact node?_erase below
  exact ⟨rfl, rooted.erase named, fun {other} held => by
    rwa [others fun same => solid (same ▸ held)],
    fun {other} out => Or.inl (others fun same => out (same ▸ allowed))⟩

end RuleDepot.Tree
