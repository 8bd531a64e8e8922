import Mathlib.Data.List.TakeWhile
import RuleDepot.Proofs.Numerals
import RuleDepot.Proofs.Version.Choosing
/-!
When versions are compatible.  The policy that merges compatible versions compares texts, namely what
stands before the first dot or dash, while the order of versions compares numbers.  For every version
that can be read as a semantic one that text is the numeral of its first number, however short the
version is and whatever follows, so both mean the same.
-/

namespace RuleDepot

open Std

/-- What ends the first number of a version. -/
def Version.inMajor (c : Char) : Bool :=
  c != '.' && c != '-'

/-- What stands behind a stop does not matter to what stands in front of it. -/
theorem takeWhile_append_of_stop {p : Char → Bool} {front back : List Char}
    (stop : back.takeWhile p = []) : (front ++ back).takeWhile p = front.takeWhile p := by
  rw [List.takeWhile_append, stop, List.append_nil]
  split
  · rename_i whole
    exact (List.IsPrefix.eq_of_length (List.takeWhile_prefix p) whole).symm
  · rfl

namespace SemVer

variable {s rest : List Char} {n : Nat} {v : SemVer}

private theorem number_eq_some (read : number s = some (n, rest)) : s = Nat.toDigits 10 n ++ rest := by
  unfold number at read
  simp only at read
  split at read
  · cases read
  · rename_i wellFormed
    split at read
    · obtain ⟨rfl, rfl⟩ := Prod.mk.inj (Option.some.inj read)
      simp only [Bool.or_eq_true, List.isEmpty_iff, Bool.and_eq_true, decide_eq_true_eq, beq_iff_eq,
        not_or, not_and] at wellFormed
      obtain ⟨some_, leading⟩ := wellFormed
      have digits : Nat.toDigits 10 (Text.decimalValue (s.takeWhile Text.isDigit)) =
          s.takeWhile Text.isDigit := by
        apply Text.toDigits_decimalValue some_
        · intro c member
          exact List.mem_takeWhile_imp member
        · have length : 0 < (s.takeWhile Text.isDigit).length := List.length_pos_iff.mpr some_
          by_cases long : (s.takeWhile Text.isDigit).length > 1
          · exact Or.inr (leading long)
          · exact Or.inl (by omega)
      rw [digits, List.takeWhile_append_dropWhile]
    · cases read

/-- What is read as a semantic version begins with the numeral of its first number and a dot. -/
theorem parse_eq_some (read : parse s = some v) :
    ∃ rest, s = Nat.toDigits 10 v.major ++ '.' :: rest := by
  unfold parse at read
  obtain ⟨⟨n, behind⟩, first, read⟩ := Option.bind_eq_some_iff.mp read
  dsimp only at read
  split at read
  · rename_i rest
    obtain ⟨⟨minor, behind⟩, -, read⟩ := Option.bind_eq_some_iff.mp read
    dsimp only at read
    split at read
    · obtain ⟨⟨patch, behind⟩, -, read⟩ := Option.bind_eq_some_iff.mp read
      obtain ⟨⟨pre, build⟩, -, read⟩ := Option.bind_eq_some_iff.mp read
      obtain rfl := Option.some.inj read
      exact ⟨rest, number_eq_some first⟩
    · cases read
  · cases read

end SemVer

namespace Version

variable {version : String} {v w : SemVer} {s : List Char}

private theorem takeWhile_inMajor_of_parse (read : SemVer.parse s = some v) :
    s.takeWhile inMajor = Nat.toDigits 10 v.major := by
  obtain ⟨rest, rfl⟩ := SemVer.parse_eq_some read
  rw [takeWhile_append_of_stop (List.takeWhile_cons_of_neg (by decide)), List.takeWhile_eq_self_iff]
  intro c member
  have digit := Text.isDigit_of_mem_toDigits member
  unfold inMajor
  rw [Bool.and_eq_true, bne_iff_ne, bne_iff_ne]
  constructor
  · rintro rfl
    revert digit
    decide
  · rintro rfl
    revert digit
    decide

/-- What is read of a version, zeros filled in or not, agrees with it up to the first dot or dash. -/
theorem exists_parse_of_lenient? (read : lenient? version = some v) : ∃ s,
    SemVer.parse s = some v ∧ s.takeWhile inMajor = (withoutMark version.toList).takeWhile inMajor := by
  unfold lenient? at read
  simp only at read
  split at read
  · rename_i parsed
    cases read
    exact ⟨_, parsed, rfl⟩
  · split at read
    · cases read
    · rename_i short
      refine ⟨_, read, ?_⟩
      generalize withoutMark version.toList = text at short ⊢
      simp only [Bool.or_eq_true, decide_eq_true_eq, not_or, Nat.not_le] at short
      -- Behind the core stand a dot of the filling here and nothing or a dash there.
      obtain ⟨k, fillings⟩ : ∃ k, 3 - (Text.splitChars (· == '.') (text.takeWhile (· != '-'))).length =
          k + 1 := ⟨_, (Nat.succ_pred_eq_of_pos (by omega)).symm⟩
      have dashed : (text.dropWhile (· != '-')).takeWhile inMajor = [] := by
        cases behind : text.dropWhile (· != '-') with
        | nil => rfl
        | cons c rest =>
          have dash := List.head?_dropWhile_not (· != '-') text
          rw [behind, List.head?_cons] at dash
          have isDash : c = '-' := by simpa using dash
          exact List.takeWhile_cons_of_neg (by rw [isDash]; decide)
      have core : (text.takeWhile (· != '-') ++ text.dropWhile (· != '-')).takeWhile inMajor =
          (text.takeWhile (· != '-')).takeWhile inMajor := takeWhile_append_of_stop dashed
      rw [List.takeWhile_append_dropWhile] at core
      rw [fillings, core, List.append_assoc, takeWhile_append_of_stop]
      rfl

/-- What decides on compatibility is the numeral of the first number. -/
theorem major_eq_toString (read : lenient? version = some v) : major version = toString v.major := by
  obtain ⟨s, parsed, agrees⟩ := exists_parse_of_lenient? read
  rw [Nat.toString_eq_ofList_toDigits, ← takeWhile_inMajor_of_parse parsed, agrees]
  rfl

private theorem major_inj {version' : String} (read : lenient? version = some v)
    (read' : lenient? version' = some w) : major version = major version' ↔ v.major = w.major := by
  rw [major_eq_toString read, major_eq_toString read']
  exact Text.toString_inj

end Version

namespace VersionRequests

open Version

/-- All requested versions have one first number. -/
def SameMajor (requests : VersionRequests) : Prop :=
  ∀ version ∈ requests, ∀ version' ∈ requests, ∀ v w, lenient? version = some v →
    lenient? version' = some w → v.major = w.major

variable {requests : VersionRequests} {version : String} {versions : List String}

theorem mergeable_highestCompatible_iff : mergeable .highestCompatible versions = true ↔
    ∀ version ∈ versions, ∀ version' ∈ versions, major version = major version' := by
  cases versions with
  | nil => simp [mergeable]
  | cons first rest =>
    simp only [mergeable, List.map_cons, List.all_map, List.all_eq_true, Function.comp_apply,
      beq_iff_eq]
    constructor
    · intro same
      have asFirst (version : String) (member : version ∈ first :: rest) :
          major version = major first := by
        rcases List.mem_cons.mp member with rfl | inside
        · rfl
        · exact same version inside
      intro version member version' member'
      exact (asFirst version member).trans (asFirst version' member').symm
    · intro same version inside
      exact same version (List.mem_cons_of_mem _ inside) first List.mem_cons_self

private theorem mergeable_iff_sameMajor (semantic : ∀ version ∈ requests, IsSemantic version) :
    mergeable .highestCompatible requests.ascending = true ↔ SameMajor requests := by
  rw [mergeable_highestCompatible_iff]
  constructor
  · intro same version asked version' asked' v w read read'
    exact (major_inj read read').mp
      (same version (mem_ascending.mpr asked) version' (mem_ascending.mpr asked'))
  · intro same version listed version' listed'
    have asked := mem_ascending.mp listed
    have asked' := mem_ascending.mp listed'
    obtain ⟨v, read⟩ := Option.isSome_iff_exists.mp (semantic version asked)
    obtain ⟨w, read'⟩ := Option.isSome_iff_exists.mp (semantic version' asked')
    exact (major_inj read read').mpr (same version asked version' asked' v w read read')

/-- **Compatible versions are merged, others are told.**  If at least one version is requested and all
can be read as semantic ones, the policy that merges compatible versions succeeds exactly if all have
one first number, and then chooses what merging all would choose.  Otherwise it refuses with a list
of all versions and of everyone who asked for each. -/
theorem compatible_versions_are_merged (requests : VersionRequests) (id : String)
    (requested : requests.isEmpty = false) (semantic : ∀ version ∈ requests, IsSemantic version) :
    ((∃ selection, requests.select id .highestCompatible = .ok selection) ↔ SameMajor requests) ∧
      (SameMajor requests → ∃ selection, requests.select id .highest = .ok selection ∧
        requests.select id .highestCompatible = .ok selection) ∧
      (¬ SameMajor requests → ∃ conflict, Lists requests conflict ∧ conflict.logicalId = id ∧
        conflict.policy = .highestCompatible ∧
        requests.select id .highestCompatible = .error (.versionConflict conflict)) := by
  have homogeneous : Homogeneous requests.keys :=
    Or.inl fun version listed => semantic version (ExtTreeMap.mem_keys.mp listed)
  obtain ⟨version, asked⟩ := exists_of_not_isEmpty requested
  obtain ⟨overridden, chosen, sorted⟩ := exists_ascending asked
  have mergeable_iff := mergeable_iff_sameMajor semantic
  have merged (same : SameMajor requests) :
      requests.select id .highestCompatible = .ok ⟨chosen, overridden⟩ := by
    rw [select_of_ascending sorted, if_pos (Or.inr (mergeable_iff.mpr same))]
  have refused (differ : ¬ SameMajor requests) : requests.select id .highestCompatible =
      .error (.versionConflict (requests.conflict id .highestCompatible)) := by
    rw [select_of_ascending sorted, if_neg]
    rintro (rfl | same)
    · -- A version that is alone agrees with itself.
      refine differ (mergeable_iff.mp (mergeable_highestCompatible_iff.mpr ?_))
      simp [sorted]
    · exact differ (mergeable_iff.mp same)
  refine ⟨⟨?_, ?_⟩, ?_, ?_⟩
  · rintro ⟨selection, ran⟩
    by_contra differ
    rw [refused differ] at ran
    cases ran
  · intro same
    exact ⟨_, merged same⟩
  · intro same
    exact ⟨_, select_highest sorted id, merged same⟩
  · intro differ
    exact ⟨_, lists_conflict homogeneous id .highestCompatible, rfl, rfl, refused differ⟩

theorem short_versions_are_merged :
    let requests : VersionRequests := (∅ : VersionRequests).insert "v1" (.ofList ["a"])
      |>.insert "1-rc.1" (.ofList ["b"])
    requests.isEmpty = false ∧ (∀ version ∈ requests, IsSemantic version) ∧ SameMajor requests ∧
      requests.select "gson" .highestCompatible = .ok ⟨"v1", ["1-rc.1"]⟩ := by
  intro requests
  have requested : requests.isEmpty = false := by decide
  have listed : ∀ version ∈ requests.keys, IsSemantic version := by decide
  have semantic (version : String) (asked : version ∈ requests) : IsSemantic version :=
    listed version (ExtTreeMap.mem_keys.mpr asked)
  have evaluated : requests.select "gson" .highestCompatible = .ok ⟨"v1", ["1-rc.1"]⟩ := by
    decide
  obtain ⟨succeeds, -⟩ := compatible_versions_are_merged requests "gson" requested semantic
  exact ⟨requested, semantic, succeeds.mp ⟨_, evaluated⟩, evaluated⟩

end VersionRequests

end RuleDepot
