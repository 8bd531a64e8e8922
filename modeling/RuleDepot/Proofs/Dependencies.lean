import Mathlib.Data.List.DropRight
import RuleDepot.Coordinate.Module
import RuleDepot.Proofs.Coordinates
import RuleDepot.Proofs.Running
/-!
Dependencies as they are written.  A text that is read as a dependency is written again as it was,
less the blanks around it, and what is written is read as the dependency that it came from.  No part
of a coordinate or of a module path holds a colon, so cutting at colons and joining with them undo
each other; the two forms are told apart by the colon in front.
-/

namespace RuleDepot

namespace Text

variable {c : Char} {s : List Char} {pieces : List (List Char)}

/-- A text is cut into the pieces that it is joined from. -/
theorem splitAt_eq_iff {s : String} {pieces : List String} (filled : pieces ≠ [])
    (solid : ∀ piece ∈ pieces, c ∉ piece.toList) :
    splitAt c s = pieces ↔ s = (String.singleton c).intercalate pieces := by
  constructor
  · rintro rfl
    refine String.toList_inj.mp ?_
    simp [splitAt, split, String.toList_intercalate, Function.comp_def, join_splitChars]
  · rintro rfl
    have cut : splitChars (· == c) ([c].intercalate (pieces.map String.toList)) =
        pieces.map String.toList :=
      splitChars_intercalate (by simpa using filled) (by simpa using solid)
    simp [splitAt, split, String.toList_intercalate, cut, Function.comp_def]

/-- What is joined from pieces without blanks by something that is no blank has no blanks. -/
theorem isBlank_of_mem_intercalate (visible : isBlank c = false)
    (solid : ∀ piece ∈ pieces, ∀ d ∈ piece, isBlank d = false) :
    ∀ d ∈ [c].intercalate pieces, isBlank d = false := by
  induction pieces with
  | nil => simp
  | cons first rest ih =>
    have here := solid first List.mem_cons_self
    have there := ih fun piece member => solid piece (List.mem_cons_of_mem _ member)
    cases rest with
    | nil => simpa using here
    | cons second rest =>
      rw [List.intercalate_cons_cons]
      intro d member
      rcases List.mem_append.mp member with front | back
      · rcases List.mem_append.mp front with first | between
        · exact here d first
        · rwa [List.mem_singleton.mp between]
      · exact there d back

private theorem trimChars_eq (s : List Char) :
    trimChars s = (s.dropWhile isBlank).rdropWhile isBlank := rfl

/-- What was trimmed has no blank at either end, so trimming it again does nothing. -/
theorem trimChars_trimChars (s : List Char) : trimChars (trimChars s) = trimChars s := by
  have front : (trimChars s).dropWhile isBlank = trimChars s := by
    rw [List.dropWhile_eq_self_iff]
    intro filled blank
    -- What is left begins as the text does once the blanks in front of it are dropped.
    obtain ⟨rest, whole⟩ := List.rdropWhile_prefix isBlank (l := s.dropWhile isBlank)
    rw [← trimChars_eq] at whole
    have again := List.dropWhile_idempotent isBlank s
    rw [List.dropWhile_eq_self_iff] at again
    refine again (by rw [← whole]; simp; omega) ?_
    simpa [← whole, List.getElem_append_left filled] using blank
  rw [trimChars_eq (trimChars s), front, trimChars_eq, List.rdropWhile_idempotent]

private theorem trim_trim (s : String) : trim (trim s) = trim s := by
  simp [trim, trimChars_trimChars]

private theorem trim_of_blankless {s : String} (blankless : ∀ c ∈ s.toList, isBlank c = false) :
    trim s = s := by
  have whole {l : List Char} (blankless : ∀ c ∈ l, isBlank c = false) : trimFront l = l := by
    rw [trimFront, List.dropWhile_eq_self_iff]
    intro filled blank
    rw [blankless _ (List.getElem_mem filled)] at blank
    cases blank
  have turned : ∀ c ∈ s.toList.reverse, isBlank c = false := by simpa using blankless
  simp [trim, trimChars, whole blankless, whole turned]

end Text

private theorem IsSegment.blankless {text : String} (segment : IsSegment text) :
    ∀ c ∈ text.toList, Text.isBlank c = false := by
  intro c member
  have legal := segment.2.2.2 c member
  simp only [isIllegal, Bool.or_eq_false_iff] at legal
  exact legal.1.1.1.1

namespace ArtifactKey

open Running

variable {key k : ArtifactKey} {s group name version : String} {classifier : Option String}

/-- What stands between the colons of a coordinate. -/
def parts (key : ArtifactKey) : List String :=
  key.group :: key.name :: key.version :: key.classifier.toList

private theorem isSegment_of_mem_parts {part : String} (member : part ∈ key.parts) : IsSegment part := by
  simp only [parts, List.mem_cons, Option.mem_toList] at member
  rcases member with rfl | rfl | rfl | named
  · exact key.group_ok
  · exact key.name_ok
  · exact key.version_ok
  · exact key.classifier_ok part named

private theorem text_eq_intercalate (key : ArtifactKey) : key.text = ":".intercalate key.parts := by
  refine String.toList_inj.mp ?_
  cases named : key.classifier <;>
    simp [text, spell, parts, named, toString]

/-- A coordinate is made of given parts exactly if it consists of them. -/
theorem make_eq_ok_iff : make group name version classifier = .ok key ↔
    key.group = group ∧ key.name = name ∧ key.version = version ∧ key.classifier = classifier := by
  constructor
  · intro made
    obtain ⟨⟨_⟩, -, made⟩ := ok_of_bind made
    obtain ⟨⟨_⟩, -, made⟩ := ok_of_bind made
    obtain ⟨⟨_⟩, -, made⟩ := ok_of_bind made
    cases classifier with
    | none =>
      cases made
      exact ⟨rfl, rfl, rfl, rfl⟩
    | some c =>
      obtain ⟨⟨_⟩, -, made⟩ := ok_of_bind made
      cases made
      exact ⟨rfl, rfl, rfl, rfl⟩
  · rintro ⟨rfl, rfl, rfl, rfl⟩
    have good {which : Segment} {text input : String} (ok : IsSegment text) :
        checkSegment input which text = .ok ⟨ok⟩ := dif_pos ok
    obtain ⟨group, name, version, classifier, group_ok, name_ok, version_ok, classifier_ok⟩ := key
    cases classifier with
    | none =>
      rw [make, good group_ok, good name_ok, good version_ok]
      rfl
    | some c =>
      rw [make, good group_ok, good name_ok, good version_ok]
      change (checkSegment _ _ c >>= _) = _
      rw [good (classifier_ok c rfl)]
      rfl

/-- A text is read as the coordinate whose text it is, less the blanks around it. -/
theorem parse_eq_ok_iff : parse s = .ok key ↔ key.text = Text.trim s := by
  have cut : Text.splitAt ':' (Text.trim s) = key.parts ↔ Text.trim s = key.text := by
    rw [text_eq_intercalate]
    refine Text.splitAt_eq_iff (by simp [parts]) fun part member => ?_
    exact not_mem_of_isSegment (isSegment_of_mem_parts member) (by decide)
  rw [eq_comm (a := key.text), ← cut, parse]
  split
  · rename_i group name version pieces
    rw [make_eq_ok_iff, pieces]
    cases named : key.classifier <;> simp [parts, named, eq_comm]
  · rename_i group name version classifier pieces
    rw [make_eq_ok_iff, pieces]
    cases named : key.classifier <;> simp [parts, named, eq_comm]
  · rename_i three four
    refine iff_of_false (by simp) fun pieces => ?_
    cases named : key.classifier with
    | none => exact three key.group key.name key.version (by simp [pieces, parts, named])
    | some c => exact four key.group key.name key.version c (by simp [pieces, parts, named])

private theorem text_blankless (key : ArtifactKey) : ∀ c ∈ key.text.toList, Text.isBlank c = false := by
  rw [text_eq_intercalate, String.toList_intercalate]
  refine Text.isBlank_of_mem_intercalate (c := ':') (by decide) fun piece member => ?_
  obtain ⟨part, inside, rfl⟩ := List.mem_map.mp member
  exact (isSegment_of_mem_parts inside).blankless

/-- No coordinate begins with a colon, because its group has a first character and that is none. -/
theorem head?_text_ne (key : ArtifactKey) : key.text.toList.head? ≠ some ':' := by
  obtain ⟨c, rest, begins⟩ : ∃ c rest, key.group.toList = c :: rest :=
    List.exists_cons_of_ne_nil (by simpa using key.group_ok.1)
  have other : c ≠ ':' := fun same =>
    not_mem_of_isSegment key.group_ok (c := ':') (by decide) (by simp [begins, same])
  rw [text_eq_intercalate, String.toList_intercalate]
  simp [parts, List.intercalate_cons_cons, begins, other]

private theorem withVersion_eq_ok_iff : key.withVersion version = .ok k ↔
    k.group = key.group ∧ k.name = key.name ∧ k.version = version ∧
      k.classifier = key.classifier :=
  make_eq_ok_iff

/-- A coordinate can be given every version that may stand in a coordinate, and no other. -/
theorem exists_withVersion_iff : (∃ k, key.withVersion version = .ok k) ↔ IsSegment version := by
  constructor
  · rintro ⟨k, made⟩
    exact (withVersion_eq_ok_iff.mp made).2.2.1 ▸ k.version_ok
  · intro legal
    exact ⟨{ key with version, version_ok := legal },
      withVersion_eq_ok_iff.mpr ⟨rfl, rfl, rfl, rfl⟩⟩

private theorem logicalId_congr (group : k.group = key.group) (name : k.name = key.name)
    (classifier : k.classifier = key.classifier) : k.logicalId = key.logicalId := by
  simp only [logicalId, group, name, classifier]

end ArtifactKey

namespace ModuleId

/-- What can follow upon a colon in a module path. -/
structure IsNamePart (part : String) : Prop where
  nonempty : part ≠ ""
  blankless : ∀ c ∈ part.toList, Text.isBlank c = false
  colonless : ':' ∉ part.toList

/-- A module path as host builds write it: a colon, and behind it parts with colons between them.
Without parts it is the path of the root. -/
def IsPath (path : String) : Prop :=
  ∃ parts : List String, (∀ part ∈ parts, IsNamePart part) ∧ path = ":" ++ ":".intercalate parts

private theorem isPart_toList_iff {part : String} :
    isPart part.toList = true ↔ part ≠ "" ∧ ∀ c ∈ part.toList, Text.isBlank c = false := by
  simp [isPart]

/-- Behind the colon in front of a module path stands nothing, or the parts that it is cut into are
good ones. -/
theorem isPath_iff {path : String} : IsPath path ↔ ∃ rest, path.toList = ':' :: rest ∧
    (rest.isEmpty || (Text.splitChars (· == ':') rest).all isPart) = true := by
  constructor
  · rintro ⟨parts, good, rfl⟩
    refine ⟨(":".intercalate parts).toList, by simp, ?_⟩
    rw [String.toList_intercalate, show ":".toList = [':'] from rfl]
    rcases eq_or_ne parts [] with rfl | filled
    · rfl
    · have cut : Text.splitChars (· == ':') ([':'].intercalate (parts.map String.toList)) =
          parts.map String.toList := by
        refine Text.splitChars_intercalate (by simpa using filled) fun piece member => ?_
        obtain ⟨part, inside, rfl⟩ := List.mem_map.mp member
        exact (good part inside).colonless
      have sound : (parts.map String.toList).all isPart = true := by
        refine List.all_eq_true.mpr fun piece member => ?_
        obtain ⟨part, inside, rfl⟩ := List.mem_map.mp member
        exact isPart_toList_iff.mpr ⟨(good part inside).nonempty, (good part inside).blankless⟩
      rw [cut, sound, Bool.or_true]
  · rintro ⟨rest, spelled, good⟩
    rcases Bool.or_eq_true_iff.mp good with alone | sound
    · obtain rfl : rest = [] := by simpa using alone
      exact ⟨[], by simp, String.toList_inj.mp (by simp [spelled])⟩
    · refine ⟨(Text.splitChars (· == ':') rest).map String.ofList, fun part member => ?_, ?_⟩
      · obtain ⟨piece, inside, rfl⟩ := List.mem_map.mp member
        have good := List.all_eq_true.mp sound piece inside
        rw [← String.toList_ofList (l := piece), isPart_toList_iff] at good
        refine ⟨good.1, good.2, fun colon => ?_⟩
        rw [String.toList_ofList] at colon
        simpa using Text.sep_of_mem_splitChars inside ':' colon
      · refine String.toList_inj.mp ?_
        simp [spelled, String.toList_intercalate, Function.comp_def, Text.join_splitChars]

/-- A module path is read as it is. -/
theorem parse_eq_ok_iff {path : String} {id : ModuleId} :
    parse path = .ok id ↔ id.text = path ∧ IsPath path := by
  rw [isPath_iff, parse]
  split
  · rename_i rest spelled
    simp only [spelled, List.cons.injEq, true_and, exists_eq_left']
    split
    · rename_i good
      rw [Except.ok.injEq, and_iff_left good]
      constructor
      · rintro rfl
        rfl
      · rintro rfl
        rfl
    · rename_i bad
      simp [bad]
  · rename_i other
    refine iff_of_false (by simp) ?_
    rintro ⟨-, rest, spelled, -⟩
    exact other rest spelled

private theorem IsPath.head?_eq {path : String} (named : IsPath path) : path.toList.head? = some ':' := by
  obtain ⟨parts, -, rfl⟩ := named
  simp

private theorem IsPath.blankless {path : String} (named : IsPath path) :
    ∀ c ∈ path.toList, Text.isBlank c = false := by
  obtain ⟨parts, good, rfl⟩ := named
  intro c member
  rw [String.toList_append, String.toList_intercalate] at member
  rcases List.mem_append.mp member with colon | inside
  · have same : c = ':' := by simpa using colon
    rw [same]
    decide
  · refine Text.isBlank_of_mem_intercalate (c := ':') (by decide) (fun piece member => ?_) c inside
    obtain ⟨part, inside, rfl⟩ := List.mem_map.mp member
    exact (good part inside).blankless

end ModuleId

namespace Dependency

/-- A dependency that can be declared.  Every coordinate can; a module has a path that host builds
write. -/
def IsDeclarable : Dependency → Prop
  | external _ => True
  | module id => ModuleId.IsPath id.text

variable {d : Dependency} {s : String}

/-- A text is read as the dependency whose text it is, less the blanks around it. -/
theorem parse_eq_ok_iff : parse s = .ok d ↔ d.IsDeclarable ∧ d.text = Text.trim s := by
  rw [parse]
  by_cases colon : (Text.trim s).toList.head? = some ':'
  · rw [if_pos (by simpa using colon)]
    cases d with
    | external key =>
      refine iff_of_false (fun ran => ?_) fun written => ?_
      · obtain ⟨id, -, other⟩ := Running.ok_of_map ran
        cases other
      · have same : key.text = Text.trim s := written.2
        exact key.head?_text_ne (same ▸ colon)
    | module id =>
      have reads : (ModuleId.parse (Text.trim s)).map Dependency.module = .ok (.module id) ↔
          ModuleId.parse (Text.trim s) = .ok id := by
        cases ModuleId.parse (Text.trim s) <;> simp [Except.map]
      rw [reads, ModuleId.parse_eq_ok_iff]
      rw [show (module id).text = id.text from rfl, IsDeclarable, and_comm]
      exact and_congr_left fun written => by rw [written]
  · rw [if_neg (by simpa using colon)]
    cases d with
    | external key =>
      have reads : (ArtifactKey.parse (Text.trim s)).map Dependency.external = .ok (.external key) ↔
          ArtifactKey.parse (Text.trim s) = .ok key := by
        cases ArtifactKey.parse (Text.trim s) <;> simp [Except.map]
      rw [reads, ArtifactKey.parse_eq_ok_iff, Text.trim_trim]
      exact (and_iff_right trivial).symm
    | module id =>
      refine iff_of_false (fun ran => ?_) fun ⟨named, written⟩ => ?_
      · obtain ⟨key, -, other⟩ := Running.ok_of_map ran
        cases other
      · have same : id.text = Text.trim s := written
        exact colon (same ▸ named.head?_eq)

private theorem trim_text (declarable : d.IsDeclarable) : Text.trim d.text = d.text := by
  refine Text.trim_of_blankless ?_
  cases d with
  | external key => exact key.text_blankless
  | module id => exact ModuleId.IsPath.blankless declarable

/-- What is written for a dependency is read as that dependency. -/
theorem parse_text_iff : parse d.text = .ok d ↔ d.IsDeclarable := by
  rw [parse_eq_ok_iff]
  exact ⟨And.left, fun declarable => ⟨declarable, (trim_text declarable).symm⟩⟩

/-- **Main result.** Texts stand for dependencies one to one.  A dependency that can be declared is
read from what is written for it; whatever is read is written as it was, less the blanks around it;
and no coordinate is written as a module path.  A coordinate is told by its identity and its
version.  It can be given exactly the versions that may stand in a coordinate, and what comes of it
is the one coordinate of the same identity, group, name and classifier at that version. -/
theorem text_unambiguous :
    (∀ d : Dependency, parse d.text = .ok d ↔ d.IsDeclarable) ∧
    (∀ s d, parse s = .ok d ↔ d.IsDeclarable ∧ d.text = Text.trim s) ∧
    (∀ (key : ArtifactKey) (id : ModuleId), ModuleId.parse key.text ≠ .ok id) ∧
    (∀ a b : ArtifactKey, a.logicalId = b.logicalId ∧ a.version = b.version ↔ a = b) ∧
    (∀ (key : ArtifactKey) (version : String),
      (∃ k, key.withVersion version = .ok k) ↔ IsSegment version) ∧
    (∀ (key k : ArtifactKey) (version : String), key.withVersion version = .ok k ↔
      k.logicalId = key.logicalId ∧ k.version = version) ∧
    ∀ (key k : ArtifactKey) (version : String), key.withVersion version = .ok k ↔
      k.group = key.group ∧ k.name = key.name ∧ k.version = version ∧
        k.classifier = key.classifier := by
  refine ⟨fun d => parse_text_iff, fun s d => parse_eq_ok_iff, fun key id read => ?_,
    fun a b => ⟨fun ⟨ids, versions⟩ => ArtifactKey.eq_of_logicalId ids versions, ?_⟩,
    fun key version => ArtifactKey.exists_withVersion_iff, fun key k version => ?_,
    fun key k version => ArtifactKey.withVersion_eq_ok_iff⟩
  · exact key.head?_text_ne (ModuleId.parse_eq_ok_iff.mp read).2.head?_eq
  · rintro rfl
    exact ⟨rfl, rfl⟩
  · rw [ArtifactKey.withVersion_eq_ok_iff]
    constructor
    · rintro ⟨group, name, versions, classifier⟩
      exact ⟨ArtifactKey.logicalId_congr group name classifier, versions⟩
    · rintro ⟨ids, versions⟩
      obtain ⟨group, name, classifier⟩ := ArtifactKey.parts_of_logicalId ids
      exact ⟨group, name, versions, classifier⟩

end Dependency

end RuleDepot
