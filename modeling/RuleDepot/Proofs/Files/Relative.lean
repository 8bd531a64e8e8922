import RuleDepot.Proofs.Files.Repeating
/-!
Paths as seen from a directory.  Fillers stand between the names of a path and do not change where it
leads, so a path is told by the other pieces.  What is left of the path of a file when the pieces of a
directory are taken off leads from that directory to the file, and so it does when it is put behind the
path of the directory again, unless that is too long a text for a path.
-/

namespace RuleDepot

variable {p q base rel : Path} {name : String} {front pieces : List String}

namespace Path

/-- A piece that a path cannot do without. -/
def isSolid (piece : String) : Bool :=
  !isFiller piece

/-- The pieces of a path less its fillers. -/
def solids (p : Path) : List String :=
  p.pieces.filter isSolid

theorem filter_fillers (hollow : ∀ piece ∈ pieces, isFiller piece = true) :
    pieces.filter isSolid = [] := by
  rw [List.filter_eq_nil_iff]
  intro piece member
  simp [isSolid, hollow piece member]

/-- A path behind another one goes on behind its pieces. -/
theorem solids_join (relative : q.isAbsolute = false) : (p.join q).solids = p.solids ++ q.solids := by
  obtain ⟨-, before, trail, own, blank, whole⟩ := pieces_join_relative p relative
  have nothing : trail.filter isSolid = [] := filter_fillers fun piece member => by
    rw [blank piece member]
    rfl
  rw [solids, solids, solids, own, whole, List.filter_append, List.filter_append, nothing,
    List.append_nil]

/-- A component tells the piece that it stands for. -/
theorem text_component? (pieces : List String) :
    (pieces.filterMap component?).map Component.text = pieces.filter isSolid := by
  induction pieces with
  | nil => rfl
  | cons piece rest ih =>
    by_cases filler : isFiller piece = true
    · simpa [component?, isSolid, filler] using ih
    · by_cases up : piece = ".."
      · have solid : isFiller ".." = false := by decide
        simpa [component?, isSolid, up, solid, Component.text] using ih
      · simpa [component?, isSolid, filler, up, Component.text] using ih

/-- Pieces stand for parents and names only. -/
theorem plain_of_mem_filterMap {c : Component} (member : c ∈ pieces.filterMap component?) :
    c ≠ .root ∧ c ≠ .current := by
  obtain ⟨piece, -, stands⟩ := List.mem_filterMap.mp member
  unfold component? at stands
  split at stands
  · cases stands
  · split at stands <;> cases stands <;> simp

/-- A relative path that does not begin with a dot begins with a parent or a name. -/
theorem first_component (relative : p.isAbsolute = false) (filled : p.text ≠ "")
    (dot : p.pieces.head? ≠ some ".") :
    ∃ c others, p.pieces.filterMap component? = c :: others ∧ c ≠ .root ∧ c ≠ .current := by
  obtain ⟨first, rest, whole⟩ := List.exists_cons_of_ne_nil (pieces_ne_nil relative)
  have other : first ≠ "" := fun blank => head_pieces_ne relative filled (by simp [whole, blank])
  have still : first ≠ "." := fun same => dot (by simp [whole, same])
  have solid : isFiller first = false := by simp [isFiller, other, still]
  obtain ⟨c, stands⟩ : ∃ c, component? first = some c := by
    unfold component?
    rw [if_neg (by simp [solid])]
    split <;> exact ⟨_, rfl⟩
  have begins : p.pieces.filterMap component? = c :: rest.filterMap component? := by
    rw [whole, List.filterMap_cons, stands]
  have member : c ∈ p.pieces.filterMap component? := begins ▸ List.mem_cons_self
  exact ⟨c, _, begins, plain_of_mem_filterMap member⟩

/-- Where the components of one path begin those of another, its pieces do. -/
theorem solids_of_prefix (within : base.pieces.filterMap component? <+: p.pieces.filterMap component?) :
    ∃ rest, p.solids = base.solids ++ rest := by
  have mapped := within.map Component.text
  rw [text_component?, text_component?] at mapped
  obtain ⟨rest, split⟩ := mapped
  exact ⟨rest, split.symm⟩

/-- A path below another one begins where that begins, and goes on behind its pieces. -/
theorem solids_of_isBelow (below : p.isBelow base = true) (filled : base.text ≠ "") :
    p.isAbsolute = base.isAbsolute ∧ ∃ rest, p.solids = base.solids ++ rest := by
  have within : base.components <+: p.components := List.isPrefixOf_iff_prefix.mp below
  -- The first component tells how each of the two paths begins.
  unfold components at within
  simp only at within
  cases absolute : base.isAbsolute with
  | true =>
    rw [absolute, if_pos rfl] at within
    split at within
    · rename_i absolute'
      exact ⟨absolute', solids_of_prefix (List.cons_prefix_cons.mp within).2⟩
    · split at within
      · cases (List.cons_prefix_cons.mp within).1
      · exact absurd rfl (plain_of_mem_filterMap (within.subset List.mem_cons_self)).1
  | false =>
    rw [absolute, if_neg Bool.false_ne_true] at within
    by_cases dot : base.pieces.head? = some "."
    · rw [if_pos (by simpa using dot)] at within
      split at within
      · cases (List.cons_prefix_cons.mp within).1
      · rename_i relative
        split at within
        · exact ⟨by simpa using relative, solids_of_prefix (List.cons_prefix_cons.mp within).2⟩
        · exact absurd rfl (plain_of_mem_filterMap (within.subset List.mem_cons_self)).2
    · rw [if_neg (by simpa using dot)] at within
      obtain ⟨c, rest, begins, plain⟩ := first_component absolute filled dot
      split at within
      · rw [begins] at within
        exact absurd (List.cons_prefix_cons.mp within).1 plain.1
      · rename_i relative
        split at within
        · rw [begins] at within
          exact absurd (List.cons_prefix_cons.mp within).1 plain.2
        · exact ⟨by simpa using relative, solids_of_prefix within⟩

private theorem dropComponents_suffix (n : Nat) (pieces : List String) :
    dropComponents n pieces <:+ pieces := by
  induction pieces generalizing n with
  | nil => cases n <;> simp [dropComponents]
  | cons piece rest ih =>
    cases n with
    | zero => simpa [dropComponents] using List.dropWhile_suffix isFiller
    | succ n =>
      simp only [dropComponents]
      split
      · exact (ih (n + 1)).trans (List.suffix_cons piece rest)
      · exact (ih n).trans (List.suffix_cons piece rest)

/-- Dropping components drops as many pieces that are no fillers. -/
theorem filter_dropComponents (n : Nat) (pieces : List String) :
    (dropComponents n pieces).filter isSolid = (pieces.filter isSolid).drop n := by
  induction pieces generalizing n with
  | nil => cases n <;> simp [dropComponents]
  | cons piece rest ih =>
    cases n with
    | zero =>
      have later := ih 0
      by_cases filler : isFiller piece = true
      · cases rest with
        | nil => simp [dropComponents, isSolid, filler]
        | cons next rest => simpa [dropComponents, isSolid, filler] using later
      · simp [dropComponents, filler]
    | succ n =>
      by_cases filler : isFiller piece = true
      · simpa [dropComponents, isSolid, filler] using ih (n + 1)
      · simpa [dropComponents, isSolid, filler] using ih n

private theorem head_dropComponents (n : Nat) (pieces : List String) :
    ∀ piece ∈ (dropComponents n pieces).head?, isFiller piece = false := by
  induction pieces generalizing n with
  | nil => cases n <;> simp [dropComponents]
  | cons piece rest ih =>
    cases n with
    | zero =>
      have later := ih 0
      by_cases filler : isFiller piece = true
      · cases rest with
        | nil => simp [dropComponents, filler]
        | cons next rest => simpa [dropComponents, filler] using later
      · simp [dropComponents, filler]
    | succ n =>
      simp only [dropComponents]
      split
      · exact ih (n + 1)
      · exact ih n

/-- A name at the end is no filler to be dropped. -/
theorem dropFillersAtEnd_eq (abs : Bool) (front : List String) (solid : isFiller name = false) :
    dropFillersAtEnd abs (front ++ [name]) = front ++ [name] := by
  cases front with
  | nil =>
    have filled : name ≠ "" ∧ name ≠ "." := by simpa [isFiller] using solid
    simp [dropFillersAtEnd, filled]
  | cons first rest => simp [dropFillersAtEnd, solid]

/-- Pieces that are left of a path to a file, from the first that is no filler on, are a relative path. -/
theorem ofPieces_dropComponents {n : Nat} (within : pieces <:+ p.pieces)
    (ends : pieces = front ++ [name]) (solid : isFiller name = false)
    (left : (pieces.filter isSolid).drop n ≠ [])
    (same : rel = ofPieces false (dropFillersAtEnd true (dropComponents n pieces))) :
    rel.isAbsolute = false ∧ rel.solids = (pieces.filter isSolid).drop n ∧
      ∃ front, rel.pieces = front ++ [name] := by
  have suffix := dropComponents_suffix n pieces
  have kept := filter_dropComponents n pieces
  obtain ⟨front', whole⟩ : ∃ front', dropComponents n pieces = front' ++ [name] := by
    rcases List.eq_nil_or_concat (dropComponents n pieces) with none | ⟨front', last, whole⟩
    · exact absurd (by rw [← kept, none]; rfl) left
    · obtain ⟨dropped, split⟩ := suffix
      rw [whole, List.concat_eq_append, ends, ← List.append_assoc] at split
      obtain rfl : last = name := by simpa using (List.append_inj' split rfl).2
      exact ⟨front', by rw [whole, List.concat_eq_append]⟩
  rw [whole, dropFillersAtEnd_eq true front' solid, ← whole] at same
  have read : (ofPieces false (dropComponents n pieces)).isAbsolute = false ∧
      (ofPieces false (dropComponents n pieces)).pieces = dropComponents n pieces := pieces_ofPieces
    (by simp [whole])
    (fun piece member => slash_not_mem_piece (within.subset (suffix.subset member)))
    (fun _ head => absurd (head_dropComponents n pieces "" head) (by decide))
  rw [← same] at read
  exact ⟨read.1, by rw [solids, read.2, kept], front', by rw [read.2, whole]⟩

private theorem length_filterMap_component? (pieces : List String) :
    (pieces.filterMap component?).length = (pieces.filter isSolid).length := by
  rw [← text_component?, List.length_map]

/-- The components of a path that is not empty tell how it begins. -/
theorem components_cases (filled : p.text ≠ "") :
    (p.components = .root :: p.pieces.filterMap component?) ∨
    (p.components = .current :: p.pieces.filterMap component? ∧ p.pieces.head? = some ".") ∨
    (p.components = p.pieces.filterMap component? ∧
      ∃ c others, p.components = c :: others ∧ c ≠ .root ∧ c ≠ .current) := by
  unfold components
  simp only
  split
  · exact Or.inl rfl
  · rename_i relative
    have relative : p.isAbsolute = false := by simpa using relative
    split
    · rename_i dot
      exact Or.inr (Or.inl ⟨rfl, by simpa using dot⟩)
    · rename_i dot
      obtain ⟨c, others, begins, plain⟩ := first_component relative filled (by simpa using dot)
      exact Or.inr (Or.inr ⟨rfl, c, others, begins, plain⟩)

/-- A path of which the components begin with a dot is spelled with one in front. -/
theorem head?_pieces_of_dotted {others : List Component} (within : .current :: others <+: p.components)
    (filled : p.text ≠ "") : p.pieces.head? = some "." := by
  rcases components_cases filled with begins | ⟨-, dot⟩ | ⟨-, c, others, begins, -, other⟩
  · rw [begins] at within
    cases (List.cons_prefix_cons.mp within).1
  · exact dot
  · rw [begins] at within
    exact absurd (List.cons_prefix_cons.mp within).1.symm other

/-- What is left of the path of a file when those pieces are taken off that the path of a directory has
leads on from there: it is relative, has the other pieces, and ends like the path of the file. -/
theorem relativeTo?_spec (found : p.relativeTo? base = some rel) (filled : base.text ≠ "")
    (ends : p.pieces = front ++ [name]) (solid : isFiller name = false)
    (longer : p.solids ≠ base.solids) :
    p.isAbsolute = base.isAbsolute ∧ rel.isAbsolute = false ∧ p.solids = base.solids ++ rel.solids ∧
      ∃ front, rel.pieces = front ++ [name] := by
  unfold relativeTo? at found
  split at found
  · rename_i below
    obtain ⟨absolute, rest, split⟩ := solids_of_isBelow below filled
    have left : rest ≠ [] := fun none => longer (by rw [split, none, List.append_nil])
    have dropped : p.solids.drop base.solids.length = rest := by rw [split, List.drop_left]
    have spelled {pieces : List String} {n : Nat} {front : List String} (within : pieces <:+ p.pieces)
        (ends : pieces = front ++ [name]) (same : pieces.filter isSolid = p.solids)
        (count : n = base.solids.length)
        (own : rel = ofPieces false (dropFillersAtEnd true (dropComponents n pieces))) :
        p.isAbsolute = base.isAbsolute ∧ rel.isAbsolute = false ∧ p.solids = base.solids ++ rel.solids ∧
          ∃ front, rel.pieces = front ++ [name] := by
      obtain ⟨relative, solids, last⟩ := ofPieces_dropComponents within ends solid
        (by rw [same, count, dropped]; exact left) own
      exact ⟨absolute, relative, by rw [solids, same, count, dropped, split], last⟩
    have named := length_filterMap_component? base.pieces
    have named' : p.text ≠ "" := by
      intro blank
      obtain rfl : p = ⟨""⟩ := by cases p; exact congrArg Path.mk blank
      obtain rfl : "" = name := by simpa using congrArg List.getLast? (show [""] = front ++ [name] from ends)
      exact absurd solid (by decide)
    rcases components_cases filled with begins | ⟨begins, dot⟩ | ⟨begins, c, others, same, plain⟩
    · rw [begins] at found
      exact spelled List.suffix_rfl ends rfl named (Option.some.inj found).symm
    · rw [begins] at found
      obtain ⟨tail, whole⟩ := List.head?_eq_some_iff.mp
        (head?_pieces_of_dotted (begins ▸ List.isPrefixOf_iff_prefix.mp below) named')
      obtain ⟨more, last⟩ : ∃ more, tail = more ++ [name] := by
        rw [whole] at ends
        cases front with
        | nil =>
          obtain ⟨rfl, -⟩ := List.cons.inj ends
          exact absurd solid (by decide)
        | cons first more => exact ⟨more, (List.cons.inj ends).2⟩
      rw [whole, List.tail_cons] at found
      refine spelled ⟨["."], by rw [whole]; rfl⟩ last ?_ named (Option.some.inj found).symm
      simp [solids, whole, isSolid, isFiller]
    · rw [same] at found
      have count : (c :: others).length = base.solids.length := by rw [← same, begins]; exact named
      cases c with
      | root => exact absurd rfl plain.1
      | current => exact absurd rfl plain.2
      | parent | name => exact spelled List.suffix_rfl ends rfl count (Option.some.inj found).symm
  · cases found

theorem filterMap_blank {trail : List String} (blank : ∀ piece ∈ trail, piece = "") :
    trail.filterMap component? = [] := by
  rw [List.filterMap_eq_nil_iff]
  intro piece member
  rw [blank piece member]
  rfl

/-- A relative path begins alike when its end is exchanged for something else. -/
theorem head_pieces_of_append {before trail behind : List String} (relative : p.isAbsolute = false)
    (filled : p.text ≠ "") (whole : p.pieces = before ++ trail) (blank : ∀ piece ∈ trail, piece = "") :
    (before ++ behind).head? = p.pieces.head? := by
  cases before with
  | nil =>
    cases trail with
    | nil => exact absurd whole (pieces_ne_nil relative)
    | cons piece trail =>
      refine absurd ?_ (head_pieces_ne relative filled)
      rw [whole, blank piece List.mem_cons_self]
      rfl
  | cons first before => rw [whole]; rfl

private theorem isBelow_of_continues {names : List String} (relative : q.isAbsolute = false)
    (continues : Continues (base.join q) p names) (relative' : p.isAbsolute = false) :
    p.isBelow base = true := by
  refine List.isPrefixOf_iff_prefix.mpr ?_
  obtain ⟨same, before, trail, own, blank, joined⟩ := pieces_join_relative base relative
  obtain ⟨same', before', trail', own', blank', whole⟩ := continues
  have begins : base.isAbsolute = false := by rw [← same, ← same', relative']
  by_cases filled : base.text = ""
  · obtain rfl : base = ⟨""⟩ := by cases base; exact congrArg Path.mk filled
    exact List.nil_prefix
  have within : base.pieces.filterMap component? <+: p.pieces.filterMap component? := by
    have middle : before'.filterMap component? = (before ++ q.pieces).filterMap component? := by
      have := congrArg (List.filterMap component?) (own'.symm.trans joined)
      rwa [List.filterMap_append, filterMap_blank blank', List.append_nil] at this
    rw [own, whole, List.filterMap_append, List.filterMap_append, filterMap_blank blank, List.append_nil,
      middle, List.filterMap_append, List.append_assoc]
    exact List.prefix_append _ _
  have filled' : (base.join q).text ≠ "" := by
    intro none
    unfold join at none
    split at none
    · rename_i absolute
      rw [relative] at absolute
      cases absolute
    · split at none <;> simp [filled] at none
  have head : p.pieces.head? = base.pieces.head? := by
    rw [whole, head_pieces_of_append (by rw [same, begins]) filled' own' blank', joined,
      head_pieces_of_append begins filled own blank]
  unfold components
  simp only [begins, relative', Bool.false_eq_true, if_false, head]
  split
  · exact List.cons_prefix_cons.mpr ⟨rfl, within⟩
  · exact within

end Path

namespace Tree

variable {t : Tree} {place : Location}

/-- Fillers in front of a name do not matter to what comes of following it. -/
theorem walk_solids (solid : Path.isFiller name = false) (front : List String) (place : Location) :
    ((front ++ [name]).filter Path.isSolid).foldlM t.follow place =
      (front ++ [name]).foldlM t.follow place := by
  induction front generalizing place with
  | nil => simp [Path.isSolid, solid]
  | cons piece front ih =>
    by_cases filler : Path.isFiller piece = true
    · rw [List.cons_append, List.filter_cons_of_neg (by simp [Path.isSolid, filler]),
        List.foldlM_cons]
      -- Where no directory is, neither the filler nor the piece behind it can be followed.
      obtain ⟨first, rest, left⟩ : ∃ first rest, (front ++ [name]).filter Path.isSolid = first :: rest :=
        List.exists_cons_of_ne_nil (by simp [Path.isSolid, solid])
      cases held : t.node? place with
      | some node =>
        cases node with
        | directory =>
          have stays : t.follow place piece = .ok place := by simp only [follow, held, filler, if_true]
          rw [stays, ih]
          rfl
        | file bytes =>
          rw [left, List.foldlM_cons]
          simp only [follow, held]
          rfl
      | none =>
        rw [left, List.foldlM_cons]
        simp only [follow, held]
        rfl
    · rw [List.cons_append, List.filter_cons_of_pos (by simp [Path.isSolid, filler]),
        List.foldlM_cons, List.foldlM_cons]
      cases t.follow place piece with
      | error kind => rfl
      | ok next => exact ih next

/-- Where pieces lead to depends on those that are no fillers. -/
theorem foldl_advance_solids (pieces : List String) (place : Location) :
    (pieces.filter Path.isSolid).foldl advance place = pieces.foldl advance place := by
  induction pieces generalizing place with
  | nil => rfl
  | cons piece rest ih =>
    by_cases filler : Path.isFiller piece = true
    · have stays : advance place piece = place := by simp only [advance, filler, if_true]
      rw [List.filter_cons_of_neg (by simp [Path.isSolid, filler]), List.foldl_cons, stays, ih]
    · rw [List.filter_cons_of_pos (by simp [Path.isSolid, filler]), List.foldl_cons, List.foldl_cons, ih]

theorem lexical_eq_solids (t : Tree) (p : Path) : t.lexical p = p.solids.foldl advance (t.start p) :=
  (foldl_advance_solids p.pieces (t.start p)).symm

/-- A path behind another one leads on from there. -/
theorem lexical_join_relative (t : Tree) (p : Path) (relative : q.isAbsolute = false) :
    t.lexical (p.join q) = q.solids.foldl advance (t.lexical p) := by
  have begins : t.start (p.join q) = t.start p := by
    simp only [start, (Path.pieces_join_relative p relative).1]
  rw [lexical_eq_solids, lexical_eq_solids, Path.solids_join relative, List.foldl_append, begins]

/-- From a directory on, a path leads to a file; so it does behind the path of the directory, if that is
a path that the file system admits. -/
structure Resolves (t : Tree) (base p : Path) (place : Location) : Prop where
  leads : p.pieces.foldlM t.follow (if p.isAbsolute then [] else t.lexical base) = .ok place
  file : ∃ bytes, t.node? place = some (.file bytes)
  joined : admissible (base.join p) = .ok () → t.isFile (base.join p) = true

/-- What an absolute path or one from the working directory leads to. -/
theorem resolves_self (file : t.isFile p = true) (begins : p.isAbsolute = true ∨ base.text = "") :
    t.Resolves base p (t.lexical p) := by
  obtain ⟨bytes, found⟩ := isFile_iff.mp file
  obtain ⟨leads, held⟩ := status_eq_ok_iff.mp found
  have walked := (locate_eq_ok_iff.mp leads).2
  have joined : base.join p = p := by
    unfold Path.join
    rcases begins with absolute | blank
    · rw [if_pos absolute]
    · split
      · rfl
      · simp [blank]
  refine ⟨?_, ⟨bytes, held⟩, fun _ => by rwa [joined]⟩
  rcases begins with absolute | blank
  · simpa only [start, absolute, if_true] using walked
  · obtain rfl : base = ⟨""⟩ := by cases base; exact congrArg Path.mk blank
    exact walked

private theorem walk_solids_ok {pieces : List String} {next : Location}
    (went : pieces.foldlM t.follow place = .ok next) :
    (pieces.filter Path.isSolid).foldlM t.follow place = .ok next := by
  induction pieces generalizing place with
  | nil => exact went
  | cons piece rest ih =>
    rw [List.foldlM_cons] at went
    obtain ⟨middle, first, later⟩ := Running.ok_of_bind went
    by_cases filler : Path.isFiller piece = true
    · obtain ⟨-, stays, -⟩ := follow_eq_ok_iff.mp first
      obtain rfl : middle = place := by simpa only [advance, filler, if_true] using stays
      rw [List.filter_cons_of_neg (by simp [Path.isSolid, filler])]
      exact ih later
    · rw [List.filter_cons_of_pos (by simp [Path.isSolid, filler]), List.foldlM_cons, first]
      exact ih later

/-- Taken off and put behind the directory again, the pieces of a path to a file lead to the file. -/
theorem resolves_behind {rel : Path} {front' : List String} (enters : t.Enters base)
    (file : t.isFile p = true) (solid : Path.isFiller name = false)
    (absolute : p.isAbsolute = base.isAbsolute) (relative : rel.isAbsolute = false)
    (split : p.solids = base.solids ++ rel.solids) (last : rel.pieces = front' ++ [name]) : t.Resolves base rel (t.lexical p) := by
  obtain ⟨bytes, found⟩ := isFile_iff.mp file
  obtain ⟨leads, held⟩ := status_eq_ok_iff.mp found
  have begins : t.start p = t.start base := by simp only [start, absolute]
  have walked : p.solids.foldlM t.follow (t.start base) = .ok (t.lexical p) :=
    begins ▸ walk_solids_ok (locate_eq_ok_iff.mp leads).2
  refine ⟨?_, ⟨bytes, held⟩, fun fits => ?_⟩
  · have entered : base.solids.foldlM t.follow (t.start base) = .ok (t.lexical base) :=
      walk_solids_ok enters.walked
    rw [split, List.foldlM_append, entered] at walked
    rw [relative, if_neg Bool.false_ne_true, last, ← walk_solids solid, ← last]
    exact walked
  · obtain ⟨same, before, -, -, -, joined⟩ := Path.pieces_join_relative base relative
    have whole : (base.join rel).pieces = (before ++ front') ++ [name] := by
      rw [joined, last, List.append_assoc]
    have solids : (base.join rel).pieces.filter Path.isSolid = p.solids := by
      rw [split, ← Path.solids_join relative, Path.solids]
    have starts : t.start (base.join rel) = t.start base := by simp only [start, same]
    have again : t.locate (base.join rel) = .ok (t.lexical p) := by
      rw [locate_eq_ok_iff, whole, ← walk_solids solid, ← whole, solids, starts]
      exact ⟨fits, walked⟩
    have leads' := locate_lexical again
    refine isFile_iff.mpr ⟨bytes, status_eq_ok_iff.mpr ?_⟩
    rw [← leads']
    exact ⟨again, held⟩

/-- The relative path of a file leads from the directory to it.  So does the path of a file that is not
below the directory, which is absolute. -/
theorem resolves_relative (enters : t.Enters base) (file : t.isFile p = true)
    (inside : p.isAbsolute = true ∨ ∃ q names, q.isAbsolute = false ∧
      Path.Continues (base.join q) p names)
    (ends : p.pieces = front ++ [name]) (solid : Path.isFiller name = false) :
    t.Resolves base ((p.relativeTo? base).getD p) (t.lexical p) := by
  cases found : p.relativeTo? base with
  | none =>
    refine resolves_self (p := p) file (Or.inl ?_)
    rcases inside with absolute | ⟨q, names, relative, continues⟩
    · exact absolute
    · cases absolute : p.isAbsolute with
      | true => rfl
      | false =>
        have below := Path.isBelow_of_continues relative continues absolute
        unfold Path.relativeTo? at found
        rw [if_pos below] at found
        split at found <;> cases found
  | some rel =>
    rw [Option.getD_some]
    by_cases filled : base.text = ""
    · have blank : base = ⟨""⟩ := by cases base; exact congrArg Path.mk filled
      have whole : rel = p := by
        have none : (Path.mk "").components = [] := by decide
        rw [blank, Path.relativeTo?, none] at found
        split at found
        · simp only [ends, Path.dropFillersAtEnd_eq _ _ solid] at found
          rw [← ends, ← Path.eq_ofPieces] at found
          exact (Option.some.inj found).symm
        · cases found
      rw [whole]
      exact resolves_self file (Or.inr filled)
    have below : p.isBelow base = true := by
      unfold Path.relativeTo? at found
      split at found
      · assumption
      · cases found
    have longer : p.solids ≠ base.solids := by
      intro same
      -- The directory would be the file.
      obtain ⟨bytes, status⟩ := isFile_iff.mp file
      have held := (status_eq_ok_iff.mp status).2
      have place : t.lexical p = t.lexical base := by
        rw [lexical_eq_solids, lexical_eq_solids, same]
        simp only [start, (Path.solids_of_isBelow below filled).1]
      rw [place, enters.held] at held
      cases held
    obtain ⟨absolute, relative, split, front', last⟩ :=
      Path.relativeTo?_spec found filled ends solid longer
    exact resolves_behind enters file solid absolute relative split last

end Tree

end RuleDepot
