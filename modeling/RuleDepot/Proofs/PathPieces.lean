import RuleDepot.Proofs.Cuts
import RuleDepot.Proofs.Files.Publishing
/-!
Paths put together.  A single name behind a path adds one piece to it and nothing else, so the file
of that name stands directly in the directory that the path leads to.
-/

namespace RuleDepot

namespace Path

/-- A text that is one component of a path, and a name. -/
structure IsName (s : String) : Prop where
  nonempty : s ≠ ""
  still : s ≠ "."
  down : s ≠ ".."
  solid : '/' ∉ s.toList

variable {p q : Path} {s : String}

theorem isAbsolute_of_slashless (slashless : '/' ∉ s.toList) : (Path.mk s).isAbsolute = false := by
  have front : s.toList.head? ≠ some '/' := fun begins => slashless (List.mem_of_mem_head? begins)
  simpa [isAbsolute] using front

namespace IsName

theorem isFiller (named : IsName s) : Path.isFiller s = false := by
  simp [Path.isFiller, named.nonempty, named.still]

private theorem split (named : IsName s) : Text.splitChars (· == '/') s.toList = [s.toList] :=
  Text.splitChars_of_unseparated fun c member => by
    have other : c ≠ '/' := fun same => named.solid (same ▸ member)
    simpa using other

theorem relative (named : IsName s) : (Path.mk s).isAbsolute = false :=
  isAbsolute_of_slashless named.solid

private theorem pieces (named : IsName s) : (Path.mk s).pieces = [s] := by
  have cut := named.split
  simp only [Path.pieces]
  rw [cut, named.relative]
  simp

/-- A name is the only component of the path that it is. -/
theorem components (named : IsName s) : (Path.mk s).components = [.name s] := by
  simp [Path.components, named.pieces, named.relative, component?, named.isFiller, named.down, named.still]

end IsName

private theorem pieces_eq_tail {first : List Char} {rest : List (List Char)}
    (cut : Text.splitChars (· == '/') p.text.toList = first :: rest) :
    p.pieces = if p.isAbsolute then rest.map String.ofList
      else (first :: rest).map String.ofList := by
  rw [pieces, cut]

private theorem pieces_join_of_solid (solid : p.text ≠ "") (relative : q.isAbsolute = false) :
    (p.join q).isAbsolute = p.isAbsolute ∧
      ∃ before trail, p.pieces = before ++ trail ∧ (∀ piece ∈ trail, piece = "") ∧
        (p.join q).pieces = before ++ q.pieces := by
  have filled : p.text.toList ≠ [] := by simpa using solid
  have joined : (p.join q).text.toList =
      if p.text.toList.getLast? = some '/' then p.text.toList ++ q.text.toList
      else p.text.toList ++ '/' :: q.text.toList := by
    have blank : p.text.isEmpty = false := by simpa using solid
    simp only [join, relative, Bool.false_eq_true, if_false, blank, Bool.false_or, beq_iff_eq]
    split <;> simp
  have absolute : (p.join q).isAbsolute = p.isAbsolute := by
    obtain ⟨c, front, begins⟩ := List.exists_cons_of_ne_nil filled
    simp only [isAbsolute, joined, begins]
    split <;> simp
  have behind : q.pieces = (Text.splitChars (· == '/') q.text.toList).map String.ofList := by
    obtain ⟨first, rest, cut⟩ :=
      List.exists_cons_of_ne_nil (Text.splitChars_ne_nil (· == '/') q.text.toList)
    rw [pieces_eq_tail cut, relative, cut]
    rfl
  refine ⟨absolute, ?_⟩
  by_cases ends : p.text.toList.getLast? = some '/'
  · obtain ⟨front, spelled⟩ := List.getLast?_eq_some_iff.mp ends
    obtain ⟨first, rest, cut⟩ := List.exists_cons_of_ne_nil (Text.splitChars_ne_nil (· == '/') front)
    have own : Text.splitChars (· == '/') p.text.toList = first :: (rest ++ [[]]) := by
      rw [spelled, Text.splitChars_append (· == '/') rfl, cut]
      rfl
    have whole : Text.splitChars (· == '/') (p.join q).text.toList =
        first :: (rest ++ Text.splitChars (· == '/') q.text.toList) := by
      rw [joined, if_pos ends, spelled, List.append_assoc]
      change Text.splitChars _ (front ++ '/' :: q.text.toList) = _
      rw [Text.splitChars_append (· == '/') rfl, cut]
      rfl
    refine ⟨if p.isAbsolute then rest.map String.ofList else (first :: rest).map String.ofList, [""],
      ?_, by simp, ?_⟩
    · rw [pieces_eq_tail own]
      split <;> simp
    · rw [pieces_eq_tail whole, absolute, behind]
      split <;> simp
  · obtain ⟨first, rest, cut⟩ :=
      List.exists_cons_of_ne_nil (Text.splitChars_ne_nil (· == '/') p.text.toList)
    have whole : Text.splitChars (· == '/') (p.join q).text.toList =
        first :: (rest ++ Text.splitChars (· == '/') q.text.toList) := by
      rw [joined, if_neg ends, Text.splitChars_append (· == '/') rfl, cut]
      rfl
    refine ⟨p.pieces, [], by simp, by simp, ?_⟩
    rw [pieces_eq_tail whole, pieces_eq_tail cut, absolute, behind]
    split <;> simp

/-- The pieces of a relative path stand behind those of another, in the place of an empty last one. -/
theorem pieces_join_relative (p : Path) (relative : q.isAbsolute = false) :
    (p.join q).isAbsolute = p.isAbsolute ∧
      ∃ before trail, p.pieces = before ++ trail ∧ (∀ piece ∈ trail, piece = "") ∧
        (p.join q).pieces = before ++ q.pieces := by
  by_cases solid : p.text = ""
  · obtain rfl : p = ⟨""⟩ := by cases p; simp_all
    have alone : (⟨""⟩ : Path).join q = q := by
      simp [join, relative]
    rw [alone]
    exact ⟨relative, [], [""], rfl, by simp, rfl⟩
  · exact pieces_join_of_solid solid relative

/-- A name behind a path is one more piece, in the place of an empty last one. -/
theorem pieces_join (p : Path) (named : IsName s) :
    (p / s).isAbsolute = p.isAbsolute ∧
      ∃ before trail, p.pieces = before ++ trail ∧ (∀ piece ∈ trail, piece = "") ∧
        (p / s).pieces = before ++ [s] := by
  have joined := pieces_join_relative p named.relative
  rwa [named.pieces] at joined

/-- A relative path of two parts is put behind another part by part. -/
theorem join_append {head : String} {last : Char} (p : Path)
    (begins : head.toList.head? ≠ some '/') (ends : head.toList.getLast? = some last)
    (other : last ≠ '/') (behind : (Path.mk s).isAbsolute = false) :
    p.join ⟨head ++ "/" ++ s⟩ = p / head / s := by
  have filled : head ≠ "" := fun blank => by simp [blank] at ends
  have relative : (Path.mk head).isAbsolute = false := by simpa [isAbsolute] using begins
  have relative' : (Path.mk (head ++ "/" ++ s)).isAbsolute = false := by
    obtain ⟨c, rest, spelled⟩ := List.exists_cons_of_ne_nil (show head.toList ≠ [] by simpa using filled)
    simpa [isAbsolute, spelled] using begins
  have closed (front : String) : ((front ++ head).isEmpty ||
      (front ++ head).toList.getLast? == some '/') = false := by
    rw [String.toList_append, List.getLast?_append, ends]
    simp [filled, other]
  change p.join ⟨head ++ "/" ++ s⟩ = (p.join ⟨head⟩).join ⟨s⟩
  simp only [join, relative, relative', behind, Bool.false_eq_true, if_false]
  split
  · rw [closed, if_neg Bool.false_ne_true]
    simp only [String.append_assoc]
  · rw [closed, if_neg Bool.false_ne_true]
    simp only [String.append_assoc]

theorem slash_not_mem_piece {piece : String} (member : piece ∈ p.pieces) : '/' ∉ piece.toList := by
  have cut : ∃ chars ∈ Text.splitChars (· == '/') p.text.toList, piece = String.ofList chars := by
    unfold pieces at member
    split at member
    · simp at member
    · rename_i first rest shape
      split at member
      · obtain ⟨chars, inside, rfl⟩ := List.mem_map.mp member
        exact ⟨chars, by simp [shape, inside], rfl⟩
      · obtain ⟨chars, inside, rfl⟩ := List.mem_map.mp member
        exact ⟨chars, by simpa [shape] using inside, rfl⟩
  obtain ⟨chars, inside, rfl⟩ := cut
  rw [String.toList_ofList]
  intro slash
  simpa using Text.sep_of_mem_splitChars inside '/' slash

theorem slash_not_mem_fileName (named : p.fileName? = some s) : '/' ∉ s.toList := by
  have last : p.components.getLast? = some (.name s) := by
    unfold fileName? at named
    split at named
    · rename_i found
      cases named
      exact found
    · cases named
  have member : Component.name s ∈ p.pieces.filterMap component? := by
    have inside := List.mem_of_getLast? last
    unfold components at inside
    split at inside
    · simpa using inside
    · split at inside
      · simpa using inside
      · exact inside
  obtain ⟨piece, inside, spelled⟩ := List.mem_filterMap.mp member
  have same : piece = s := by
    unfold component? at spelled
    split at spelled
    · cases spelled
    · split at spelled
      · cases spelled
      · simpa using spelled
  exact same ▸ slash_not_mem_piece inside

theorem text_join_ne_empty (p : Path) (filled : s ≠ "") : (p / s).text ≠ "" := by
  change (p.join ⟨s⟩).text ≠ ""
  unfold join
  split
  · exact filled
  · split <;> simp [filled]

end Path

namespace Tree

variable {t t' : Tree} {p : Path} {s name : String} {before : List String}

private theorem foldl_advance_trail {trail : List String} (blank : ∀ piece ∈ trail, piece = "")
    (place : Location) : trail.foldl advance place = place := by
  induction trail with
  | nil => rfl
  | cons piece trail ih =>
    have empty : piece = "" := blank piece List.mem_cons_self
    have stays : advance place piece = place := by simp [advance, Path.isFiller, empty]
    rw [List.foldl_cons, stays]
    exact ih fun piece member => blank piece (List.mem_cons_of_mem _ member)

/-- A name behind a path leads to the entry of that name. -/
theorem lexical_join (t : Tree) (named : Path.IsName s) :
    t.lexical (p / s) = t.lexical p ++ [s] := by
  obtain ⟨absolute, before, trail, own, blank, whole⟩ := Path.pieces_join p named
  simp [lexical, start, absolute, own, whole, foldl_advance_trail blank, advance, named.isFiller,
    named.down]

theorem text_ne_empty_of_isDir (directory : t.isDir p = true) : p.text ≠ "" := by
  intro blank
  have found := (status_eq_ok_iff.mp (isDir_iff.mp directory)).1
  have fits := (locate_eq_ok_iff.mp found).1
  simp [admissible, blank] at fits

/-- A name behind a path to a directory is about the entry of that name. -/
theorem aims_join (directory : t.isDir p = true) (named : Path.IsName s)
    (fits : admissible (p / s) = .ok ()) (short : s.utf8ByteSize ≤ nameLimit) :
    ∃ before, Aims t (p / s) before s 0 := by
  obtain ⟨absolute, before, trail, own, blank, whole⟩ :=
    Path.pieces_join p named
  obtain ⟨found, held⟩ := status_eq_ok_iff.mp (isDir_iff.mp directory)
  have begins : t.start (p / s) = t.start p := by simp [start, absolute]
  have leads : t.lexical p = before.foldl advance (t.start p) := by
    rw [lexical, own, List.foldl_append, foldl_advance_trail blank]
  have walked := (locate_eq_ok_iff.mp found).2
  rw [own, List.foldlM_append] at walked
  cases went : before.foldlM t.follow (t.start p) with
  | error kind =>
    rw [went] at walked
    cases walked
  | ok dir =>
    obtain rfl := walk_lexical went
    exact ⟨before, fits, whole, begins ▸ went, by rw [begins, ← leads]; exact held, named.isFiller,
      named.down, short⟩

/-- A name behind a path that leads somewhere is about the entry of that name. -/
theorem aims_of_found {place : Location} (named : Path.IsName s)
    (found : t.locate (p / s) = .ok place) : ∃ before, Aims t (p / s) before s 0 := by
  obtain ⟨-, before, -, -, -, whole⟩ := Path.pieces_join p named
  obtain ⟨fits, walked⟩ := locate_eq_ok_iff.mp found
  rw [whole, List.foldlM_append] at walked
  cases went : before.foldlM t.follow (t.start (p / s)) with
  | error kind =>
    rw [went] at walked
    cases walked
  | ok dir =>
    rw [went] at walked
    obtain rfl := walk_lexical went
    change List.foldlM t.follow _ [s] = _ at walked
    rw [List.foldlM_cons] at walked
    cases last : t.follow (before.foldl advance (t.start (p / s))) s with
    | error kind =>
      rw [last] at walked
      cases walked
    | ok next =>
      obtain ⟨directory, -, short⟩ := follow_eq_ok_iff.mp last
      exact ⟨before, fits, whole, went, directory, named.isFiller, named.down,
        (short named.isFiller named.down).1⟩

/-- The entry that a path with a name at its end is about has that name. -/
theorem Aims.name_eq (aims : Aims t (p / s) before name 0)
    (named : Path.IsName s) : name = s := by
  obtain ⟨-, front, -, -, -, whole⟩ := Path.pieces_join p named
  have spelled : before ++ [name] = front ++ [s] := aims.pieces.symm.trans whole
  simpa using congrArg List.getLast? spelled

/-- Nothing stands where a name behind a path to a directory leads to, if that cannot be reached
although the file system accepts the path. -/
theorem absent_of_unreached (directory : t.isDir p = true) (named : Path.IsName s)
    (aims : Aims t' (p / s) before name 0) (unreached : t.reaches (p / s) = false) :
    t.node? (t.lexical (p / s)) = none := by
  obtain rfl := aims.name_eq named
  obtain ⟨front, own⟩ := aims_join directory named aims.fits aims.short
  cases held : t.node? (t.lexical (p / name)) with
  | none => rfl
  | some node =>
    have reached : t.reaches (p / name) = true :=
      reaches_iff.mpr ⟨node, own.status held (Or.inl rfl)⟩
    simp [reached] at unreached

end Tree

end RuleDepot
