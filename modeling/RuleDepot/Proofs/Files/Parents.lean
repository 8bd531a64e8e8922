import RuleDepot.Proofs.PathPieces
/-!
Where the parent of a path leads.  A parent is the front of a path, less the fillers at its end, so
it is spelled by fewer characters, and a path that leads anywhere leads there through its parent.
-/

namespace RuleDepot

namespace Path

variable {p q : Path} {abs : Bool} {pieces : List String}

/-- The characters of a path whose pieces are known. -/
theorem toList_ofPieces (abs : Bool) (pieces : List String) :
    (ofPieces abs pieces).text.toList =
      (if abs then ['/'] else []) ++ ['/'].intercalate (pieces.map String.toList) := by
  cases abs <;> simp [ofPieces, String.toList_intercalate]

/-- A path is spelled by its pieces. -/
theorem eq_ofPieces (p : Path) : p = ofPieces p.isAbsolute p.pieces := by
  have spelled : p.text.toList = (ofPieces p.isAbsolute p.pieces).text.toList := by
    have joined := Text.join_splitChars '/' p.text.toList
    rw [toList_ofPieces, Path.pieces]
    obtain ⟨first, rest, cut⟩ :=
      List.exists_cons_of_ne_nil (Text.splitChars_ne_nil (· == '/') p.text.toList)
    simp only [cut] at joined ⊢
    cases absolute : p.isAbsolute with
    | false => simpa [List.map_map, Function.comp_def] using joined.symm
    | true =>
      obtain ⟨chars, begins⟩ : ∃ chars, p.text.toList = '/' :: chars := by
        cases text : p.text.toList with
        | nil => simp [isAbsolute, text] at absolute
        | cons c chars =>
          have slash : c = '/' := by simpa [isAbsolute, text] using absolute
          exact ⟨chars, by rw [slash]⟩
      have cut' : Text.splitChars (· == '/') chars = rest := by
        have both : first = [] ∧ Text.splitChars (· == '/') chars = rest := by
          simpa [begins, Text.splitChars] using cut
        exact both.2
      have joined' := Text.join_splitChars '/' chars
      rw [cut'] at joined'
      simpa [begins, List.map_map, Function.comp_def] using joined'.symm
  have same : p.text = (ofPieces p.isAbsolute p.pieces).text := String.toList_inj.mp spelled
  cases p
  exact congrArg Path.mk same

/-- Pieces that were put together are those of the path, as long as what is relative does not begin
with a slash. -/
theorem pieces_ofPieces (filled : pieces ≠ []) (solid : ∀ piece ∈ pieces, '/' ∉ piece.toList)
    (front : abs = false → pieces.head? ≠ some "") :
    (ofPieces abs pieces).isAbsolute = abs ∧ (ofPieces abs pieces).pieces = pieces := by
  obtain ⟨first, rest, rfl⟩ := List.exists_cons_of_ne_nil filled
  have cut : Text.splitChars (· == '/') (['/'].intercalate ((first :: rest).map String.toList)) =
      (first :: rest).map String.toList := by
    rw [List.map_cons]
    refine Text.splitChars_intercalate (by simp) fun piece member => ?_
    rw [← List.map_cons] at member
    obtain ⟨text, inside, rfl⟩ := List.mem_map.mp member
    exact solid text inside
  have again : ((first :: rest).map String.toList).map String.ofList = first :: rest := by
    simp [List.map_map, Function.comp_def]
  have absolute : (ofPieces abs (first :: rest)).isAbsolute = abs := by
    rw [isAbsolute, toList_ofPieces]
    cases abs with
    | true => simp
    | false =>
      obtain ⟨c, chars, begins⟩ : ∃ c chars, first.toList = c :: chars := by
        refine List.exists_cons_of_ne_nil fun blank => front rfl ?_
        simpa using blank
      have other : c ≠ '/' := fun same =>
        solid first List.mem_cons_self (by simp [begins, same])
      cases rest <;> simp [List.intercalate, begins, other]
  refine ⟨absolute, ?_⟩
  rw [Path.pieces, absolute, toList_ofPieces]
  cases abs with
  | true =>
    simp only [if_true, List.singleton_append, Text.splitChars]
    rw [cut]
    exact again
  | false =>
    simp only [Bool.false_eq_true, if_false, List.nil_append]
    rw [cut]
    exact again

private theorem intercalate_append {l : List (List Char)} (filled : l ≠ []) (second : List Char)
    (more : List (List Char)) : ['/'].intercalate (l ++ second :: more) =
      ['/'].intercalate l ++ '/' :: ['/'].intercalate (second :: more) := by
  induction l with
  | nil => exact absurd rfl filled
  | cons a l ih =>
    cases l with
    | nil => simp [List.intercalate, List.intersperse]
    | cons b l =>
      have later := ih (by simp)
      simp only [List.intercalate, List.cons_append, List.intersperse, List.flatten_cons] at later ⊢
      rw [later]
      simp

private theorem toList_ofPieces_prefix (abs : Bool) {front : List String} (filled : front ≠ [])
    (rest : List String) :
    (ofPieces abs front).text.toList <+: (ofPieces abs (front ++ rest)).text.toList := by
  rw [toList_ofPieces, toList_ofPieces, List.map_append]
  refine (List.prefix_append_right_inj _).mpr ?_
  cases rest with
  | nil => simp
  | cons second more =>
    rw [List.map_cons, intercalate_append (by simpa using filled)]
    exact List.prefix_append _ _

theorem pieces_ne_nil (relative : p.isAbsolute = false) : p.pieces ≠ [] := by
  obtain ⟨first, rest, cut⟩ :=
    List.exists_cons_of_ne_nil (Text.splitChars_ne_nil (· == '/') p.text.toList)
  simp [pieces, cut, relative]

/-- A relative path does not begin with a slash. -/
theorem head_pieces_ne (relative : p.isAbsolute = false) (named : p.text ≠ "") :
    p.pieces.head? ≠ some "" := by
  intro blank
  obtain ⟨tail, whole⟩ := List.head?_eq_some_iff.mp blank
  have own := congrArg (fun p : Path => p.text.toList) p.eq_ofPieces
  simp only [toList_ofPieces, relative, whole] at own
  cases tail with
  | nil => simp [List.intercalate, named] at own
  | cons second more =>
    simp [List.intercalate] at own
    simp [isAbsolute, own] at relative

/-- What is dropped at the end is nothing but fillers. -/
theorem eq_append_dropFillersAtEnd (abs : Bool) (pieces : List String) :
    ∃ fillers, pieces = dropFillersAtEnd abs pieces ++ fillers ∧
      ∀ piece ∈ fillers, isFiller piece = true := by
  cases pieces with
  | nil => exact ⟨[], rfl, by simp⟩
  | cons first rest =>
    have whole : rest = (rest.reverse.dropWhile isFiller).reverse ++
        (rest.reverse.takeWhile isFiller).reverse := by
      rw [← List.reverse_append, List.takeWhile_append_dropWhile, List.reverse_reverse]
    have blank : ∀ piece ∈ (rest.reverse.takeWhile isFiller).reverse, isFiller piece = true :=
      fun piece member => List.all_eq_true.mp List.all_takeWhile piece (List.mem_reverse.mp member)
    unfold dropFillersAtEnd
    simp only
    split
    · rename_i hollow
      simp only [Bool.and_eq_true, List.isEmpty_iff] at hollow
      obtain ⟨none, front⟩ := hollow
      refine ⟨first :: rest, rfl, List.forall_mem_cons.mpr ⟨?_, ?_⟩⟩
      · simp only [Bool.or_eq_true, Bool.and_eq_true, beq_iff_eq] at front
        rcases front with rfl | ⟨-, rfl⟩ <;> rfl
      · rw [whole, none, List.nil_append]
        exact blank
    · exact ⟨_, congrArg (first :: ·) whole, blank⟩

/-- A parent is the front of the path, up to fillers around its last piece. -/
theorem parent?_eq_some (found : p.parent? = some q) :
    ∃ front gap last fillers, p.pieces = front ++ gap ++ last :: fillers ∧
      (∀ piece ∈ gap, isFiller piece = true) ∧ (∀ piece ∈ fillers, isFiller piece = true) ∧
      q = ofPieces p.isAbsolute front := by
  unfold parent? at found
  obtain ⟨fillers, whole, blank⟩ := eq_append_dropFillersAtEnd p.isAbsolute p.pieces
  split at found
  · cases found
  · rename_i last before shape
    obtain rfl := Option.some.inj found
    obtain ⟨gap, inner, blank'⟩ := eq_append_dropFillersAtEnd p.isAbsolute before.reverse
    have spelled : dropFillersAtEnd p.isAbsolute p.pieces = before.reverse ++ [last] := by
      have turned := congrArg List.reverse shape
      simpa using turned
    refine ⟨_, gap, last, fillers, ?_, blank', blank, rfl⟩
    rw [spelled] at whole
    rw [← inner]
    simpa using whole

end Path

namespace Tree

variable {t : Tree} {p q : Path} {node : Node}

/-- The front of an admissible text is admissible unless it is empty. -/
theorem admissible_of_front (fits : admissible p = .ok ()) (filled : q.text ≠ "")
    (front : q.text.toList <+: p.text.toList) : admissible q = .ok () := by
  obtain ⟨rest, spelled⟩ := front
  have text : p.text = q.text ++ String.ofList rest := by
    rw [← String.toList_inj, String.toList_append, String.toList_ofList, spelled]
  have size : p.text.utf8ByteSize = q.text.utf8ByteSize + (String.ofList rest).utf8ByteSize := by
    rw [text, String.utf8ByteSize_append]
  unfold admissible at fits ⊢
  split at fits
  · cases fits
  split at fits
  · cases fits
  · rename_i clean
    split at fits
    · cases fits
    · rename_i short
      have clean' : ¬ q.text.toList.contains '\x00' = true := by
        rw [← spelled] at clean
        simp only [List.contains_eq_mem, List.mem_append, decide_eq_true_eq, not_or] at clean ⊢
        exact clean.1
      rw [if_neg (by simpa using filled), if_neg clean', if_neg (by omega)]

theorem walk_fillers {place : Location} {fillers : List String}
    (blank : ∀ piece ∈ fillers, Path.isFiller piece = true)
    (held : t.node? place = some .directory) : fillers.foldlM t.follow place = .ok place := by
  induction fillers with
  | nil => rfl
  | cons piece rest ih =>
    have stays : t.follow place piece = .ok place := by
      simp only [follow, held, blank piece List.mem_cons_self, if_true]
    rw [List.foldlM_cons, stays]
    exact ih fun other member => blank other (List.mem_cons_of_mem _ member)

/-- Fillers lead nowhere else. -/
theorem foldl_advance_fillers {fillers : List String}
    (blank : ∀ piece ∈ fillers, Path.isFiller piece = true) (place : Location) :
    fillers.foldl advance place = place := by
  induction fillers with
  | nil => rfl
  | cons piece rest ih =>
    have stays : advance place piece = place := by
      simp only [advance, blank piece List.mem_cons_self, if_true]
    rw [List.foldl_cons, stays]
    exact ih fun other member => blank other (List.mem_cons_of_mem _ member)

/-- How a parent that is not empty is spelled. -/
theorem spelled_parent {front rest : List String} (same : q = Path.ofPieces p.isAbsolute front)
    (filled : q.text ≠ "") (whole : p.pieces = front ++ rest) (named : p.text ≠ "") :
    q.isAbsolute = p.isAbsolute ∧
      (q.pieces = front ∨ front = [] ∧ q.pieces = [""]) ∧ q.text.toList <+: p.text.toList := by
  have own := congrArg (fun p : Path => p.text.toList) p.eq_ofPieces
  by_cases none : front = []
  · cases absolute : p.isAbsolute with
    | false =>
      rw [absolute, none] at same
      exact absurd (by rw [same]; rfl) filled
    | true =>
      rw [absolute, none] at same
      rw [absolute, Path.toList_ofPieces] at own
      subst same
      refine ⟨rfl, Or.inr ⟨none, rfl⟩, ?_⟩
      rw [own]
      exact List.prefix_append _ _
  · have solid : ∀ piece ∈ front, '/' ∉ piece.toList := fun piece member =>
      Path.slash_not_mem_piece (p := p) (whole ▸ List.mem_append_left _ member)
    have begins : p.isAbsolute = false → front.head? ≠ some "" := by
      intro relative blank
      refine Path.head_pieces_ne relative named ?_
      rw [whole, List.head?_append, blank]
      rfl
    obtain ⟨absolute, pieces⟩ := Path.pieces_ofPieces none solid begins
    rw [← same] at absolute pieces
    refine ⟨absolute, Or.inl pieces, ?_⟩
    rw [same, own, whole]
    exact Path.toList_ofPieces_prefix _ none rest

theorem isDir_of_walk {next : Location} (fits : admissible p = .ok ())
    (went : p.pieces.foldlM t.follow (t.start p) = .ok next)
    (stands : t.node? next = some .directory) : t.isDir p = true := by
  have leads : t.locate p = .ok next := locate_eq_ok_iff.mpr ⟨fits, went⟩
  refine isDir_iff.mpr (status_eq_ok_iff.mpr ?_)
  rw [← locate_lexical leads]
  exact ⟨leads, stands⟩

/-- The working directory, as the text of a path. -/
theorem isDir_current (held : t.node? t.workingDir = some .directory) : t.isDir ⟨"."⟩ = true := by
  have pieces : (Path.mk ".").pieces = ["."] := by decide
  have still : ∀ piece ∈ ["."], Path.isFiller piece = true := by decide
  refine isDir_of_walk rfl ?_ held
  rw [pieces]
  exact walk_fillers still held

/-- What is gone on from is a directory. -/
theorem directory_of_walk_on {pieces : List String} {place next : Location} (more : pieces ≠ [])
    (walked : pieces.foldlM t.follow place = .ok next) : t.node? place = some .directory := by
  obtain ⟨piece, rest, rfl⟩ := List.exists_cons_of_ne_nil more
  rw [List.foldlM_cons] at walked
  obtain ⟨_, entered, -⟩ := Running.ok_of_bind walked
  exact (follow_eq_ok_iff.mp entered).1

/-- Of what a path begins with, only nothing is spelled as nothing, and that in a relative path. -/
theorem front_of_blank {front rest : List String} (blank : (Path.ofPieces p.isAbsolute front).text = "")
    (whole : p.pieces = front ++ rest) (named : p.text ≠ "") : p.isAbsolute = false ∧ front = [] := by
  replace blank := congrArg String.toList blank
  rw [Path.toList_ofPieces] at blank
  have relative : p.isAbsolute = false := by
    cases absolute : p.isAbsolute with
    | false => rfl
    | true => simp [absolute] at blank
  refine ⟨relative, ?_⟩
  cases front with
  | nil => rfl
  | cons piece others =>
    have empty : piece = "" := by
      cases others <;> simp [relative, List.intercalate] at blank
      exact blank
    exact absurd (by rw [whole, empty]; rfl) (Path.head_pieces_ne relative named)

/-- A path that leads anywhere leads there through its parent. -/
theorem isDir_parent (found : t.status p = .ok node) (parent : p.parent? = some q) :
    t.isDir q = true ∨ q.text = "" ∧ t.isDir ⟨"."⟩ = true := by
  obtain ⟨front, gap, last, fillers, whole, hollow, -, same⟩ := Path.parent?_eq_some parent
  obtain ⟨leads, -⟩ := status_eq_ok_iff.mp found
  obtain ⟨fits, walked⟩ := locate_eq_ok_iff.mp leads
  have named : p.text ≠ "" := fun blank => by simp [admissible, blank] at fits
  rw [List.append_assoc] at whole
  rw [whole, List.foldlM_append] at walked
  obtain ⟨place, first, walked⟩ := Running.ok_of_bind walked
  have directory : t.node? place = some .directory := directory_of_walk_on (by simp) walked
  by_cases filled : q.text = ""
  · obtain ⟨relative, rfl⟩ := front_of_blank (same ▸ filled) whole named
    cases first
    simp only [start, relative] at directory
    exact Or.inr ⟨filled, isDir_current directory⟩
  · obtain ⟨absolute, pieces, front'⟩ := spelled_parent same filled whole named
    have begins : t.start q = t.start p := by simp only [start, absolute]
    refine Or.inl (isDir_of_walk (admissible_of_front fits filled front') ?_ directory)
    rw [begins]
    rcases pieces with own | ⟨rfl, own⟩
    · rwa [own]
    · cases first
      rw [own]
      have still : ∀ piece ∈ [""], Path.isFiller piece = true := by decide
      exact walk_fillers still directory

/-- What is there is there in the directory that its file would be staged in. -/
theorem isDir_stagingDir (found : t.status p = .ok node) (parent : p.parent? ≠ none) :
    t.isDir p.stagingDir = true := by
  obtain ⟨q, known⟩ := Option.ne_none_iff_exists'.mp parent
  simp only [Path.stagingDir, known]
  rcases isDir_parent found known with directory | ⟨blank, directory⟩
  · rw [if_neg (by simpa using text_ne_empty_of_isDir directory)]
    exact directory
  · rw [if_pos (by simpa using blank)]
    exact directory

/-- The parent of a name behind a path is that path, less the fillers at its end. -/
theorem parent?_of_join {d : Path} {s : String} (named : Path.IsName s) :
    ∃ q front fillers, (d / s).parent? = some q ∧ q = Path.ofPieces d.isAbsolute front ∧
      d.pieces = front ++ fillers ∧ (∀ piece ∈ fillers, Path.isFiller piece = true) ∧
      (q.text ≠ "" → q.isAbsolute = d.isAbsolute ∧
        (q.pieces = front ∨ front = [] ∧ q.pieces = [""])) := by
  obtain ⟨absolute, before, trail, own, blank, whole⟩ := Path.pieces_join d named
  cases parent : (d / s).parent? with
  | none =>
    obtain ⟨fillers, split, hollow⟩ :=
      Path.eq_append_dropFillersAtEnd (d / s).isAbsolute (d / s).pieces
    have none : Path.dropFillersAtEnd (d / s).isAbsolute (d / s).pieces = [] := by
      unfold Path.parent? at parent
      split at parent
      · rename_i shape
        simpa using shape
      · cases parent
    rw [none, List.nil_append, whole] at split
    have filler := hollow s (split ▸ by simp)
    rw [named.isFiller] at filler
    cases filler
  | some q =>
    obtain ⟨front, gap, last, fillers, split, hollow, hollow', same⟩ := Path.parent?_eq_some parent
    have alone : fillers = [] := by
      rcases List.eq_nil_or_concat fillers with none | ⟨more, x, ends⟩
      · exact none
      · rw [whole, ends, List.concat_eq_append, ← List.cons_append, ← List.append_assoc] at split
        obtain rfl : s = x := by simpa using (List.append_inj' split rfl).2
        have filler := hollow' s (ends ▸ by simp)
        rw [named.isFiller] at filler
        cases filler
    have fronts : before = front ++ gap := by
      rw [alone, whole] at split
      exact (List.append_inj' split rfl).1
    refine ⟨q, front, gap ++ trail, rfl, absolute ▸ same, ?_, fun piece member => ?_, fun filled => ?_⟩
    · rw [own, fronts, List.append_assoc]
    · rcases List.mem_append.mp member with inside | inside
      · exact hollow piece inside
      · rw [blank piece inside]
        rfl
    · obtain ⟨absolute', pieces, -⟩ := spelled_parent same filled
        (split.trans (List.append_assoc ..)) (Path.text_join_ne_empty d named.nonempty)
      exact ⟨absolute'.trans absolute, pieces⟩

/-- The parent of a name behind a path leads where the path does. -/
theorem parent?_join {d : Path} {s : String} (t : Tree) (named : Path.IsName s) :
    ∃ q, (d / s).parent? = some q ∧ (q.text ≠ "" → t.lexical q = t.lexical d) := by
  obtain ⟨q, front, fillers, parent, -, own, hollow, spelled⟩ := parent?_of_join (d := d) named
  refine ⟨q, parent, fun filled => ?_⟩
  obtain ⟨absolute, pieces⟩ := spelled filled
  have begins : t.start q = t.start d := by simp only [start, absolute]
  have leads : t.lexical d = front.foldl advance (t.start d) := by
    rw [lexical, own, List.foldl_append, foldl_advance_fillers hollow]
  rw [leads, lexical, begins]
  rcases pieces with pieces | ⟨none, pieces⟩
  · rw [pieces]
  · rw [pieces, none]
    have still : ∀ piece ∈ [""], Path.isFiller piece = true := by decide
    exact foldl_advance_fillers still _

end Tree

end RuleDepot
