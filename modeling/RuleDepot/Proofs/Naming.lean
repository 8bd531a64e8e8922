import Mathlib.Data.List.Nodup
import RuleDepot.Cache.Naming
import RuleDepot.Proofs.Coordinates
import RuleDepot.Proofs.PathPieces
/-!
The names of cached files can be read back.  In a plain stem the first dash in front of a digit
ends the name and the last dot before it ends the group, and a version that does not end like a
digest is told from the digest behind it; in a tagged stem the last tilde ends the readable form.
Two coordinates therefore share a name only if both are tagged, read alike and agree in the eight
digits behind the tilde.
-/

namespace RuleDepot

namespace ContentHash

/-- A digest as it is printed: sixty-four lower-case digits to the base sixteen. -/
structure IsDigest (h : ContentHash) : Prop where
  width : h.digits.toList.length = 64
  lower : ∀ c ∈ h.digits.toList, Digest.isLowerHex c = true

theorem isDigest_sha256 (bytes : ByteArray) : IsDigest ⟨Digest.sha256Hex bytes⟩ where
  width := Digest.length_sha256Hex bytes
  lower _ := Digest.isLowerHex_of_mem_sha256Hex

theorem isDigest_ofCoordinate (key : ArtifactKey) : (ofCoordinate key).IsDigest :=
  isDigest_sha256 _

private theorem utf8Size_of_isLowerHex {c : Char} (lower : Digest.isLowerHex c = true) :
    c.utf8Size = 1 := by
  simp only [Digest.isLowerHex, Text.isDigit, Bool.or_eq_true, Bool.and_eq_true,
    decide_eq_true_eq] at lower
  have small : c.val ≤ 0x7F := by
    rcases lower with ⟨-, upper⟩ | ⟨-, upper⟩
    · exact UInt32.le_trans upper (by decide)
    · exact UInt32.le_trans upper (by decide)
  simp [Char.utf8Size, small]

private theorem short_toList {h : ContentHash} (digest : h.IsDigest) :
    h.short.toList = h.digits.toList.take 8 := by
  rw [short, String.toList_ofList]
  exact Text.withinBytes_eq_take fun c member => utf8Size_of_isLowerHex (digest.lower c member)

private theorem length_short {h : ContentHash} (digest : h.IsDigest) : h.short.toList.length = 8 := by
  simp [short_toList digest, digest.width]

private theorem isLowerHex_of_mem_short {h : ContentHash} (digest : h.IsDigest) {c : Char}
    (member : c ∈ h.short.toList) : Digest.isLowerHex c = true := by
  rw [short_toList digest] at member
  exact digest.lower c (List.mem_of_mem_take member)

end ContentHash

namespace Naming

open ContentHash

variable {a b : ArtifactKey} {front front' back back' mark mark' : List Char}

/-- Two tagged coordinates that read alike and agree in the first eight digits of their digests. -/
def Collide (a b : ArtifactKey) : Prop :=
  isPlain a = false ∧ isPlain b = false ∧ readable a = readable b ∧
    (ofCoordinate a).short = (ofCoordinate b).short

/-- What may stand between a stem and an extension: nothing, or a dash and the short or the whole
digest. -/
def IsMark (mark : List Char) : Prop :=
  mark = [] ∨ ∃ digits, mark = '-' :: digits ∧ (digits.length = 8 ∨ digits.length = 64) ∧
    ∀ c ∈ digits, Digest.isLowerHex c = true

private theorem not_lowerHex : Digest.isLowerHex '-' = false ∧ Digest.isLowerHex '~' = false ∧
    Digest.isLowerHex '.' = false ∧ Digest.isLowerHex '/' = false := by
  decide

private theorem not_mem_of_lower {c : Char} {digits : List Char}
    (lower : ∀ c ∈ digits, Digest.isLowerHex c = true) (other : Digest.isLowerHex c = false) :
    c ∉ digits := fun member => by simp [lower c member] at other

theorem IsMark.not_mem {c : Char} (marked : IsMark mark) (other : Digest.isLowerHex c = false)
    (dashless : c ≠ '-') : c ∉ mark := by
  rcases marked with rfl | ⟨digits, rfl, -, lower⟩
  · simp
  · simp [dashless, not_mem_of_lower lower other]

private theorem hasDashDigit_cons (c : Char) (s : List Char) :
    hasDashDigit (c :: s) = ((c == '-' && s.head?.any Text.isDigit) || hasDashDigit s) := by
  by_cases dash : c = '-'
  · subst dash
    cases s <;> simp [hasDashDigit]
  · rw [hasDashDigit]
    · simp [dash]
    · exact fun d rest same _ => dash same

private theorem hasDashDigit_append {c : Char} (other : Text.isDigit c = false) :
    hasDashDigit (front ++ c :: back) = (hasDashDigit front || hasDashDigit (c :: back)) := by
  induction front with
  | nil => simp [hasDashDigit]
  | cons d front ih =>
    rw [List.cons_append, hasDashDigit_cons, hasDashDigit_cons d front, ih, Bool.or_assoc]
    cases front <;> simp [other]

private theorem front_eq_nil {d d' : Char} (digit : Text.isDigit d = true)
    (first : hasDashDigit front = false)
    (same : '-' :: d :: back = front ++ '-' :: d' :: back') : front = [] := by
  cases front with
  | nil => rfl
  | cons c rest =>
    simp only [List.cons_append, List.cons.injEq] at same
    obtain ⟨rfl, same⟩ := same
    cases rest with
    | nil =>
      obtain rfl : d = '-' := (List.cons.inj same).1
      exact absurd digit (by decide)
    | cons x rest =>
      obtain rfl : d = x := (List.cons.inj same).1
      simp [hasDashDigit_cons, digit] at first

private theorem cut_at_dash_digit {d d' : Char} (digit : Text.isDigit d = true)
    (digit' : Text.isDigit d' = true) (first : hasDashDigit front = false)
    (first' : hasDashDigit front' = false)
    (same : front ++ '-' :: d :: back = front' ++ '-' :: d' :: back') :
    front = front' ∧ d :: back = d' :: back' := by
  induction front generalizing front' with
  | nil =>
    obtain rfl := front_eq_nil digit first' same
    simpa using same
  | cons c rest ih =>
    cases front' with
    | nil => exact absurd (front_eq_nil digit' first same.symm) (by simp)
    | cons c' rest' =>
      simp only [List.cons_append, List.cons.injEq] at same
      obtain ⟨rfl, same⟩ := same
      rw [hasDashDigit_cons, Bool.or_eq_false_iff] at first first'
      obtain ⟨rfl, behind⟩ := ih first.2 first'.2 same
      exact ⟨rfl, behind⟩

private theorem append_mark_inj (plain : endsLikeDigest front = false)
    (plain' : endsLikeDigest front' = false) (marked : IsMark mark) (marked' : IsMark mark')
    (same : front ++ mark = front' ++ mark') : front = front' := by
  have ends {front digits : List Char} (width : digits.length = 8 ∨ digits.length = 64)
      (lower : ∀ c ∈ digits, Digest.isLowerHex c = true) :
      endsLikeDigest (front ++ '-' :: digits) = true := by
    have hex : digits.all Digest.isHex = true :=
      List.all_eq_true.mpr fun c member => by simp [Digest.isHex, lower c member]
    simp only [endsLikeDigest, Text.cutLast_append (not_mem_of_lower lower not_lowerHex.1), hex,
      Bool.and_true]
    simpa using width
  rcases marked with rfl | ⟨digits, rfl, width, lower⟩ <;>
    rcases marked' with rfl | ⟨digits', rfl, width', lower'⟩
  · simpa using same
  · rw [List.append_nil] at same
    simp [same, ends width' lower'] at plain
  · rw [List.append_nil] at same
    simp [← same, ends width lower] at plain'
  · exact (Text.append_cons_inj (not_mem_of_lower lower not_lowerHex.1)
      (not_mem_of_lower lower' not_lowerHex.1) same).1

private theorem isPlain_iff : isPlain a = true ↔
    a.classifier = none ∧ ('~' ∉ a.group.toList ∧ '~' ∉ a.name.toList ∧ '~' ∉ a.version.toList) ∧
      hasDashDigit a.group.toList = false ∧ hasDashDigit a.name.toList = false ∧
      '.' ∉ a.name.toList ∧ (∃ d rest, a.version.toList = d :: rest ∧ Text.isDigit d = true) ∧
      endsLikeDigest a.version.toList = false := by
  have begins : (a.version.toList.head?.map Text.isDigit).getD false = true ↔
      ∃ d rest, a.version.toList = d :: rest ∧ Text.isDigit d = true := by
    cases a.version.toList <;> simp
  simp only [isPlain, tag, Bool.and_eq_true, Bool.not_eq_true', begins, List.any_cons, List.any_nil,
    Bool.or_false, Bool.or_eq_false_iff, Option.isNone_iff_eq_none, and_assoc]
  simp

private theorem readable_toList (unclassified : a.classifier = none) :
    (readable a).toList =
      (a.group.toList ++ '.' :: a.name.toList) ++ '-' :: a.version.toList := by
  have spelled : readable a = a.group ++ "." ++ a.name ++ "-" ++ a.version := by
    rw [readable, unclassified]
    rfl
  simp [spelled]

private theorem hasDashDigit_dotted {group name : List Char} (first : hasDashDigit group = false)
    (second : hasDashDigit name = false) : hasDashDigit (group ++ '.' :: name) = false := by
  rw [hasDashDigit_append (by decide), first, hasDashDigit_cons, second]
  rfl

private theorem cut_of_plain (plain : isPlain a = true) (plain' : isPlain b = true)
    (same : (readable a).toList ++ behind = (readable b).toList ++ behind') :
    a.group = b.group ∧ a.name = b.name ∧
      a.version.toList ++ behind = b.version.toList ++ behind' := by
  obtain ⟨unclassified, -, group, name, dotless, ⟨d, rest, version, digit⟩, -⟩ :=
    isPlain_iff.mp plain
  obtain ⟨unclassified', -, group', name', dotless', ⟨d', rest', version', digit'⟩, -⟩ :=
    isPlain_iff.mp plain'
  have cut : (a.group.toList ++ '.' :: a.name.toList) ++ '-' :: d :: (rest ++ behind) =
      (b.group.toList ++ '.' :: b.name.toList) ++ '-' :: d' :: (rest' ++ behind') := by
    simpa [readable_toList unclassified, readable_toList unclassified', version, version'] using same
  obtain ⟨fronts, versions⟩ :=
    cut_at_dash_digit digit digit' (hasDashDigit_dotted group name) (hasDashDigit_dotted group' name') cut
  obtain ⟨groups, names⟩ := Text.append_cons_inj dotless dotless' fronts
  rw [version, version']
  exact ⟨String.toList_inj.mp groups, String.toList_inj.mp names, versions⟩

private theorem plain_inj (plain : isPlain a = true) (plain' : isPlain b = true)
    (marked : IsMark mark) (marked' : IsMark mark')
    (same : (readable a).toList ++ mark = (readable b).toList ++ mark') : a = b := by
  obtain ⟨groups, names, versions⟩ := cut_of_plain plain plain' same
  obtain ⟨unclassified, -, -, -, -, -, ends⟩ := isPlain_iff.mp plain
  obtain ⟨unclassified', -, -, -, -, -, ends'⟩ := isPlain_iff.mp plain'
  have tails := append_mark_inj ends ends' marked marked' versions
  exact ArtifactKey.eq_of_parts groups names (String.toList_inj.mp tails)
    (unclassified.trans unclassified'.symm)

private theorem tilde_not_mem_plain (plain : isPlain a = true) : '~' ∉ (readable a).toList := by
  obtain ⟨unclassified, ⟨group, name, version⟩, -⟩ := isPlain_iff.mp plain
  simp [readable_toList unclassified, group, name, version]

private theorem stem_of_plain (plain : isPlain a = true) : stem a = readable a := by
  simp [stem, plain]

private theorem stem_of_tagged (tagged : isPlain a = false) :
    (stem a).toList = (readable a).toList ++ '~' :: (ofCoordinate a).short.toList := by
  simp [stem, tagged, tag]

private theorem tilde_not_mem_short (key : ArtifactKey) : '~' ∉ (ofCoordinate key).short.toList :=
  not_mem_of_lower (fun _ => isLowerHex_of_mem_short (isDigest_ofCoordinate key)) not_lowerHex.2.1

private theorem tilde_not_mem_mark (marked : IsMark mark) : '~' ∉ mark :=
  marked.not_mem not_lowerHex.2.1 (by decide)

/-- Stems and marks can be told apart, unless two tagged coordinates collide. -/
theorem stem_mark_inj (marked : IsMark mark) (marked' : IsMark mark')
    (same : (stem a).toList ++ mark = (stem b).toList ++ mark') : a = b ∨ Collide a b := by
  have tildeless {key : ArtifactKey} {mark : List Char} (marked : IsMark mark) :
      '~' ∉ (ofCoordinate key).short.toList ++ mark := by
    simp [tilde_not_mem_short, tilde_not_mem_mark marked]
  cases plain : isPlain a with
  | true =>
    rw [stem_of_plain plain] at same
    cases plain' : isPlain b with
    | true =>
      rw [stem_of_plain plain'] at same
      exact Or.inl (plain_inj plain plain' marked marked' same)
    | false =>
      rw [stem_of_tagged plain'] at same
      have present : '~' ∈ (readable a).toList ++ mark := by simp [same]
      simp [tilde_not_mem_plain plain, tilde_not_mem_mark marked] at present
  | false =>
    rw [stem_of_tagged plain] at same
    cases plain' : isPlain b with
    | true =>
      rw [stem_of_plain plain'] at same
      have present : '~' ∈ (readable b).toList ++ mark' := by simp [← same]
      simp [tilde_not_mem_plain plain', tilde_not_mem_mark marked'] at present
    | false =>
      rw [stem_of_tagged plain', List.append_assoc, List.append_assoc] at same
      obtain ⟨texts, behind⟩ := Text.append_cons_inj (tildeless marked) (tildeless marked') same
      have width : (ofCoordinate a).short.toList.length = (ofCoordinate b).short.toList.length := by
        rw [length_short (isDigest_ofCoordinate a), length_short (isDigest_ofCoordinate b)]
      have shorts := (List.append_inj behind width).1
      exact Or.inr ⟨plain, plain', String.toList_inj.mp texts, String.toList_inj.mp shorts⟩

private theorem unmarked_of_processor {front name : List Char} (marked : IsMark mark)
    (same : front ++ "-processor".toList = name ++ mark) : mark = [] := by
  rcases marked with none | ⟨digits, shape, -, lower⟩
  · exact none
  have suffix : "-processor".toList = '-' :: "processor".toList := rfl
  have dashless : '-' ∉ "processor".toList := by decide
  rw [suffix, shape] at same
  have tails := (Text.append_cons_inj dashless (not_mem_of_lower lower not_lowerHex.1) same).2
  exact absurd (lower 'p' (by simp [← tails])) (by decide)

private theorem not_tagged_of_processor (marked : IsMark mark) (tagged : isPlain b = false) :
    (stem a).toList ++ (mark ++ "-processor".toList) ≠ (stem b).toList := by
  intro same
  rw [stem_of_tagged tagged] at same
  have inside : '~' ∉ mark ++ "-processor".toList := by
    simp [tilde_not_mem_mark marked]
  cases plain : isPlain a with
  | true =>
    rw [stem_of_plain plain] at same
    have present : '~' ∈ (readable a).toList ++ (mark ++ "-processor".toList) := by
      rw [same]
      simp
    rcases List.mem_append.mp present with present | present
    · exact absurd present (tilde_not_mem_plain plain)
    · exact absurd present inside
  | false =>
    rw [stem_of_tagged plain, List.append_assoc, List.cons_append] at same
    have clear : '~' ∉ (ofCoordinate a).short.toList ++ (mark ++ "-processor".toList) := by
      rw [List.mem_append, not_or]
      exact ⟨tilde_not_mem_short a, inside⟩
    have behind := (Text.append_cons_inj clear (tilde_not_mem_short b) same).2
    have lengths := congrArg List.length behind
    simp [length_short (isDigest_ofCoordinate a), length_short (isDigest_ofCoordinate b)] at lengths

/-- A name with `-processor` behind it is the name of another coordinate only if that one is the same
artifact at another version. -/
theorem processor_apart (marked : IsMark mark) (marked' : IsMark mark')
    (same : (stem a).toList ++ mark ++ "-processor".toList = (stem b).toList ++ mark') :
    a ≠ b ∧ a.logicalId = b.logicalId := by
  obtain rfl := unmarked_of_processor marked' same
  rw [List.append_nil, List.append_assoc] at same
  cases plain' : isPlain b with
  | false => exact absurd same (not_tagged_of_processor marked plain')
  | true =>
    rw [stem_of_plain plain'] at same
    cases plain : isPlain a with
    | false =>
      have present : '~' ∈ (readable b).toList := by simp [← same, stem_of_tagged plain]
      exact absurd present (tilde_not_mem_plain plain')
    | true =>
      rw [stem_of_plain plain, ← List.append_nil (readable b).toList] at same
      obtain ⟨groups, names, versions⟩ := cut_of_plain plain plain' same
      have unclassified := (isPlain_iff.mp plain).1
      have unclassified' := (isPlain_iff.mp plain').1
      refine ⟨?_, ?_⟩
      · rintro rfl
        have lengths := congrArg List.length versions
        simp at lengths
      · simp only [ArtifactKey.logicalId, unclassified, unclassified', groups, names]

/-- An extension holds no dot and no slash. -/
theorem not_mem_extension (a : Artifact) :
    '.' ∉ a.extension.toList ∧ '/' ∉ a.extension.toList := by
  unfold Artifact.extension
  cases found : a.source.extension? with
  | none => decide
  | some ext =>
    simp only [Path.extension?, Option.bind_eq_bind, Option.bind_eq_some_iff] at found
    obtain ⟨name, named, ⟨stem, tail⟩, cut, shape⟩ := found
    obtain ⟨spelled, absent⟩ := Text.eq_of_cutLast cut
    have slashless := Path.slash_not_mem_fileName named
    rw [spelled] at slashless
    split at shape
    · cases shape
    · cases shape
      simp_all

/-- A candidate is the stem, a mark, a dot and the extension. -/
theorem candidate_spelled {a : Artifact} (digest : a.hash.IsDigest) {name : String}
    (candidate : name ∈ candidates a) :
    ∃ mark, IsMark mark ∧
      name.toList = ((stem a.key).toList ++ mark) ++ '.' :: a.extension.toList := by
  have whole : IsMark ('-' :: a.hash.digits.toList) :=
    Or.inr ⟨_, rfl, Or.inr digest.width, digest.lower⟩
  have short : IsMark ('-' :: a.hash.short.toList) :=
    Or.inr ⟨_, rfl, Or.inl (length_short digest), fun _ => isLowerHex_of_mem_short digest⟩
  simp only [candidates, List.mem_cons, List.not_mem_nil, or_false] at candidate
  rcases candidate with rfl | rfl | rfl
  · exact ⟨[], Or.inl rfl, by simp [toString]⟩
  · exact ⟨_, short, by simp [toString]⟩
  · exact ⟨_, whole, by simp [toString]⟩

private theorem dash_mem_stem (key : ArtifactKey) : '-' ∈ (stem key).toList := by
  have inside : '-' ∈ (readable key).toList := by
    unfold readable
    split <;> simp [toString]
  unfold stem
  split <;> simp [inside]

theorem dot_mem_stem (key : ArtifactKey) : '.' ∈ (stem key).toList := by
  have inside : '.' ∈ (readable key).toList := by
    unfold readable
    split <;> simp [toString]
  unfold stem
  split <;> simp [inside]

/-- What may not stand in a coordinate does not stand in a stem. -/
theorem not_mem_stem {c : Char} (illegal : isIllegal c = true) (other : Digest.isLowerHex c = false)
    (key : ArtifactKey) : c ∉ (stem key).toList := by
  have legal : isIllegal '.' = false ∧ isIllegal '-' = false ∧ isIllegal '~' = false := by decide
  have dotless : c ≠ '.' := fun same => by simp [same, legal] at illegal
  have dashless : c ≠ '-' := fun same => by simp [same, legal] at illegal
  have tildeless : c ≠ '~' := fun same => by simp [same, legal] at illegal
  have group := not_mem_of_isSegment key.group_ok illegal
  have name := not_mem_of_isSegment key.name_ok illegal
  have version := not_mem_of_isSegment key.version_ok illegal
  have read : c ∉ (readable key).toList := by
    unfold readable
    split
    · rename_i classifier held
      have classified := not_mem_of_isSegment (key.classifier_ok classifier (by simp [held])) illegal
      simp [toString, group, name, version, classified, dotless, dashless]
    · simp [toString, group, name, version, dotless, dashless]
  unfold stem
  split
  · exact read
  · have digest := isDigest_ofCoordinate key
    have short : c ∉ (ofCoordinate key).short.toList :=
      not_mem_of_lower (fun c => isLowerHex_of_mem_short digest) other
    simp [read, short, tag, tildeless]

private theorem slash_not_mem_stem (key : ArtifactKey) : '/' ∉ (stem key).toList :=
  not_mem_stem (by decide) not_lowerHex.2.2.2 key

private theorem isName_of_dash {s : String} (dash : '-' ∈ s.toList) (solid : '/' ∉ s.toList) :
    Path.IsName s where
  nonempty same := by simp [same] at dash
  still same := by simp [same] at dash
  down same := by simp [same] at dash
  solid := solid

/-- A candidate is a name of its own: no path, and no name that the cache uses for itself. -/
theorem isName_candidate {a : Artifact} (digest : a.hash.IsDigest) {name : String}
    (candidate : name ∈ candidates a) : Path.IsName name ∧ '-' ∈ name.toList := by
  obtain ⟨mark, marked, spelled⟩ := candidate_spelled digest candidate
  have dash : '-' ∈ name.toList := by simp [spelled, dash_mem_stem]
  refine ⟨isName_of_dash dash ?_, dash⟩
  simp [spelled, slash_not_mem_stem, marked.not_mem not_lowerHex.2.2.2, (not_mem_extension a).2]

/-- The lock of a coordinate has a name of its own, too. -/
theorem isName_lock (key : ArtifactKey) : Path.IsName s!"{stem key}.lock" :=
  isName_of_dash (by simp [toString, dash_mem_stem]) (by simp [toString, slash_not_mem_stem])

/-- The rule for a candidate is named by its stem and mark. -/
theorem ruleName_spelled {a : Artifact} {name : String} {mark : List Char}
    (spelled : name.toList = ((stem a.key).toList ++ mark) ++ '.' :: a.extension.toList) :
    (ruleName name).toList = (stem a.key).toList ++ mark := by
  have filled : ((stem a.key).toList ++ mark).isEmpty = false := by
    have inside := dash_mem_stem a.key
    cases shape : (stem a.key).toList with
    | nil => simp [shape] at inside
    | cons c rest => rfl
  simp only [ruleName, spelled, Text.cutLast_append (not_mem_extension a).1, filled,
    Bool.false_eq_true, if_false, String.toList_ofList]

/-- Artifacts that share the name of a rule have one coordinate or two that collide. -/
theorem key_of_ruleName {a b : Artifact} (digest : a.hash.IsDigest) (digest' : b.hash.IsDigest)
    {name name' : String} (candidate : name ∈ candidates a) (candidate' : name' ∈ candidates b)
    (same : ruleName name = ruleName name') : a.key = b.key ∨ Collide a.key b.key := by
  obtain ⟨mark, marked, spelled⟩ := candidate_spelled digest candidate
  obtain ⟨mark', marked', spelled'⟩ := candidate_spelled digest' candidate'
  refine stem_mark_inj marked marked' ?_
  rw [← ruleName_spelled spelled, ← ruleName_spelled spelled', same]

private theorem Collide.stem_eq (collide : Collide a b) : stem a = stem b := by
  obtain ⟨tagged, tagged', texts, shorts⟩ := collide
  simp [stem, tagged, tagged', texts, shorts]

/-- Versions of one artifact read differently. -/
theorem eq_of_readable (ids : a.logicalId = b.logicalId) (same : readable a = readable b) :
    a = b := by
  obtain ⟨groups, names, classifiers⟩ := ArtifactKey.parts_of_logicalId ids
  apply ArtifactKey.eq_of_logicalId ids
  unfold readable at same
  rw [groups, names, classifiers] at same
  split at same
  all_goals simpa [toString, ← String.toList_inj] using same

/-- The name with the whole digest is a name for no other digest. -/
theorem hash_of_whole {a b : Artifact} (digest : a.hash.IsDigest) (digest' : b.hash.IsDigest)
    (candidate : s!"{stem a.key}-{a.hash.digits}.{a.extension}" ∈ candidates b) : a.hash = b.hash := by
  have whole : IsMark ('-' :: a.hash.digits.toList) :=
    Or.inr ⟨_, rfl, Or.inr digest.width, digest.lower⟩
  have behind {mark : List Char} (marked : IsMark mark)
      (spelled : (s!"{stem a.key}-{a.hash.digits}.{a.extension}").toList =
        ((stem b.key).toList ++ mark) ++ '.' :: b.extension.toList) :
      '-' :: a.hash.digits.toList = mark := by
    have cut : ((stem a.key).toList ++ '-' :: a.hash.digits.toList) ++ '.' :: a.extension.toList =
        ((stem b.key).toList ++ mark) ++ '.' :: b.extension.toList := by
      simpa [toString] using spelled
    have fronts := (Text.append_cons_inj (not_mem_extension a).1 (not_mem_extension b).1 cut).1
    have stems : stem a.key = stem b.key := by
      rcases stem_mark_inj whole marked fronts with same | collide
      · rw [same]
      · exact collide.stem_eq
    rw [stems] at fronts
    exact List.append_cancel_left fronts
  have short : IsMark ('-' :: b.hash.short.toList) :=
    Or.inr ⟨_, rfl, Or.inl (length_short digest'), fun _ => isLowerHex_of_mem_short digest'⟩
  have whole' : IsMark ('-' :: b.hash.digits.toList) :=
    Or.inr ⟨_, rfl, Or.inr digest'.width, digest'.lower⟩
  simp only [candidates, List.mem_cons, List.not_mem_nil, or_false] at candidate
  rcases candidate with same | same | same
  · have empty := behind (Or.inl rfl) (by rw [same]; simp [toString])
    cases empty
  · have digits := behind short (by rw [same]; simp [toString])
    have lengths := congrArg List.length digits
    simp [digest.width, length_short digest'] at lengths
  · have digits := behind whole' (by rw [same]; simp [toString])
    exact congrArg ContentHash.mk (String.toList_inj.mp (List.cons.inj digits).2)

/-- Artifacts with one stem, one digest and a name in common have all their names in common. -/
theorem candidates_eq {a b : Artifact} {name : String} (digest : a.hash.IsDigest)
    (stems : stem a.key = stem b.key) (hashes : a.hash = b.hash) (candidate : name ∈ candidates a)
    (candidate' : name ∈ candidates b) : candidates a = candidates b := by
  obtain ⟨mark, -, spelled⟩ := candidate_spelled digest candidate
  obtain ⟨mark', -, spelled'⟩ := candidate_spelled (hashes ▸ digest) candidate'
  have ends := (Text.append_cons_inj (not_mem_extension a).1 (not_mem_extension b).1
    (spelled.symm.trans spelled')).2
  simp only [candidates, stems, hashes, String.toList_inj.mp ends]

/-- The names of an artifact are different. -/
theorem nodup_candidates {a : Artifact} (digest : a.hash.IsDigest) : (candidates a).Nodup := by
  have short : a.hash.short.length = 8 := String.length_toList.symm.trans (length_short digest)
  have whole : a.hash.digits.length = 64 := String.length_toList.symm.trans digest.width
  have dot : ".".length = 1 := rfl
  have dash : "-".length = 1 := rfl
  refine List.Nodup.of_map String.length ?_
  simp only [candidates, toString, String.length_append, List.map_cons, List.map_nil, short, whole,
    dot, dash]
  simp

/-- **Names tell coordinates apart.**  Two coordinates have one stem exactly if they collide, and
if they do not, no file of the one and no rule for it is named like one of the other. -/
theorem names_determine_coordinates (a b : Artifact) (distinct : a.key ≠ b.key)
    (digest : a.hash.IsDigest) (digest' : b.hash.IsDigest) :
    (stem a.key = stem b.key ↔ Collide a.key b.key) ∧
      (¬ Collide a.key b.key → ∀ name ∈ candidates a, ∀ name' ∈ candidates b,
        name ≠ name' ∧ ruleName name ≠ ruleName name') := by
  refine ⟨⟨fun same => ?_, fun collide => ?_⟩, fun apart name member name' member' => ?_⟩
  · exact (stem_mark_inj (Or.inl rfl) (Or.inl rfl) (by simp [same])).resolve_left distinct
  · obtain ⟨tagged, tagged', texts, shorts⟩ := collide
    simp [stem, tagged, tagged', texts, shorts]
  · have rules : ruleName name ≠ ruleName name' := fun same =>
      (key_of_ruleName digest digest' member member' same).elim distinct apart
    exact ⟨fun same => rules (congrArg ruleName same), rules⟩

/-- A coordinate whose name ends in what could begin a version. -/
def dashedName : Artifact where
  key := ⟨"a", "b-1", "0", none, by decide, by decide, by decide, unclassified⟩
  source := ⟨"x.jar"⟩
  hash := ⟨Digest.sha256Hex .empty⟩
  origin := .external

/-- The same text read the other way: the version holds the dash. -/
def dashedVersion : Artifact where
  key := ⟨"a", "b", "1-0", none, by decide, by decide, by decide, unclassified⟩
  source := ⟨"x.jar"⟩
  hash := ⟨Digest.sha256Hex .empty⟩
  origin := .external

theorem names_of_dashed_coordinates_differ :
    readable dashedName.key = readable dashedVersion.key ∧
      stem dashedName.key ≠ stem dashedVersion.key ∧
      ∀ name ∈ candidates dashedName, ∀ name' ∈ candidates dashedVersion,
        name ≠ name' ∧ ruleName name ≠ ruleName name' := by
  have distinct : dashedName.key ≠ dashedVersion.key := by decide
  have apart : ¬ Collide dashedName.key dashedVersion.key := fun collide =>
    absurd collide.2.1 (by decide)
  obtain ⟨stems, names⟩ := names_determine_coordinates dashedName dashedVersion distinct
    (isDigest_sha256 _) (isDigest_sha256 _)
  exact ⟨rfl, fun same => apart (stems.mp same), names apart⟩

end Naming

end RuleDepot
