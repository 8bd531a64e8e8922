import RuleDepot.Collector.Emission
import RuleDepot.Proofs.Naming
import RuleDepot.Proofs.Tables
/-!
What is made of fetched artifacts.  As long as coordinates can be told apart by the names of their
files, every file of the cache gets one rule, names of rules are different, and a rule refers to rules
of its own list only.  The names of bundles hold no dot and those of cached files do; the name of a
processor is that of another file only if both are versions of one artifact.
-/

namespace RuleDepot

variable {entries : List CacheEntry} {e e' : CacheEntry} {rule : Rule} {rules : List Rule}

namespace CacheEntry

/-- No two coordinates of some entries collide. -/
def Apart (entries : List CacheEntry) : Prop :=
  ∀ e ∈ entries, ∀ e' ∈ entries, e.key ≠ e'.key → ¬ Naming.Collide e.key e'.key

theorem apart_of_alone {name : String} (alone : entries.map fileName = [name]) : Apart entries := by
  obtain ⟨only, same, -⟩ := List.map_eq_singleton_iff.mp alone
  rw [same]
  intro e member e' member' differ
  rw [List.mem_singleton.mp member, List.mem_singleton.mp member'] at differ
  exact absurd rfl differ

/-- Entries that can be told by their coordinates, those in the cache under candidate names. -/
structure Tidy (entries : List CacheEntry) : Prop where
  single : ∀ e ∈ entries, ∀ e' ∈ entries, e.key = e'.key → e = e'
  candidate : ∀ e ∈ entries, e.materialized = true → e.fileName ∈ Naming.candidates e.artifact
  digest : ∀ e ∈ entries, e.artifact.hash.IsDigest

/-- A rule is named like the file, by a stem and a mark. -/
theorem Tidy.spelled (tidy : Tidy entries) (member : e ∈ entries) (stored : e.materialized = true) :
    ∃ mark, Naming.IsMark mark ∧ e.ruleName.toList = (Naming.stem e.key).toList ++ mark := by
  obtain ⟨mark, marked, spelled⟩ :=
    Naming.candidate_spelled (tidy.digest e member) (tidy.candidate e member stored)
  exact ⟨mark, marked, Naming.ruleName_spelled spelled⟩

theorem Tidy.ruleName_inj (tidy : Tidy entries) (apart : Apart entries) (member : e ∈ entries)
    (member' : e' ∈ entries) (stored : e.materialized = true) (stored' : e'.materialized = true)
    (same : e.ruleName = e'.ruleName) : e = e' := by
  have shared := Naming.key_of_ruleName (tidy.digest e member) (tidy.digest e' member')
    (tidy.candidate e member stored) (tidy.candidate e' member' stored') same
  refine tidy.single e member e' member' (Classical.byContradiction fun distinct => ?_)
  exact apart e member e' member' distinct (shared.resolve_left distinct)

private theorem Tidy.dot_mem (tidy : Tidy entries) (member : e ∈ entries) (stored : e.materialized = true) :
    '.' ∈ e.ruleName.toList := by
  obtain ⟨mark, -, spelled⟩ := tidy.spelled member stored
  rw [spelled]
  exact List.mem_append_left _ (Naming.dot_mem_stem e.key)

theorem Tidy.colon_not_mem (tidy : Tidy entries) (member : e ∈ entries)
    (stored : e.materialized = true) : ':' ∉ e.ruleName.toList := by
  obtain ⟨mark, marked, spelled⟩ := tidy.spelled member stored
  rw [spelled, List.mem_append]
  have other : Digest.isLowerHex ':' = false := by decide
  exact not_or.mpr ⟨Naming.not_mem_stem (by decide) other e.key, marked.not_mem other (by decide)⟩

end CacheEntry

namespace Rule

open CacheEntry

/-- Whether a rule stands for a file of the cache. -/
def isPrebuilt (rule : Rule) : Bool :=
  rule.ruleType = "prebuilt_jar" || rule.ruleType = "android_prebuilt_aar"

/-- The coordinate that a rule says it is for. -/
def coordinates? (rule : Rule) : Option AttrValue :=
  rule.attrs["maven_coords"]?

/-- The file that a rule says it stands for. -/
def file? (rule : Rule) : Option AttrValue :=
  if rule.ruleType = "android_prebuilt_aar" then rule.attrs["aar"]? else rule.attrs["binary_jar"]?

/-- The attributes by which rules refer to each other. -/
def references : List String :=
  ["deps", "exported_deps"]

@[simp] theorem prebuilt_name (e : CacheEntry) : (prebuilt e).name = e.ruleName := by
  unfold prebuilt
  split <;> rfl

@[simp] theorem prebuilt_isPrebuilt (e : CacheEntry) : (prebuilt e).isPrebuilt = true := by
  unfold prebuilt
  split <;> rfl

private theorem prebuilt_attrs (e : CacheEntry) : ∃ file, (file = "aar" ∨ file = "binary_jar") ∧
    (prebuilt e).attrs = ((∅ : Table String AttrValue).insert file (.text e.fileName)).insert
      "maven_coords" (.text e.key.text) := by
  unfold prebuilt
  split
  · exact ⟨"aar", Or.inl rfl, rfl⟩
  · exact ⟨"binary_jar", Or.inr rfl, rfl⟩

@[simp] theorem prebuilt_coordinates (e : CacheEntry) :
    (prebuilt e).coordinates? = some (.text e.key.text) := by
  obtain ⟨file, -, attrs⟩ := prebuilt_attrs e
  rw [coordinates?, attrs, Table.getElem?_insert, if_pos rfl]

@[simp] theorem prebuilt_file (e : CacheEntry) : (prebuilt e).file? = some (.text e.fileName) := by
  have other : "maven_coords" ≠ "aar" ∧ "maven_coords" ≠ "binary_jar" := by decide
  unfold prebuilt
  split
  · change (((∅ : Table String AttrValue).insert "aar" (.text e.fileName)).insert "maven_coords"
      (.text e.key.text))["aar"]? = _
    rw [Table.getElem?_insert, if_neg other.1, Table.getElem?_insert, if_pos rfl]
  · change (((∅ : Table String AttrValue).insert "binary_jar" (.text e.fileName)).insert
      "maven_coords" (.text e.key.text))["binary_jar"]? = _
    rw [Table.getElem?_insert, if_neg other.2, Table.getElem?_insert, if_pos rfl]

/-- The rule for a file refers to no other rule. -/
theorem prebuilt_refers {attr : String} (reference : attr ∈ references) :
    (prebuilt e).attrs[attr]? = none := by
  obtain ⟨file, named, attrs⟩ := prebuilt_attrs e
  have other : "maven_coords" ≠ attr ∧ file ≠ attr := by
    simp only [references, List.mem_cons, List.not_mem_nil, or_false] at reference
    rcases reference with rfl | rfl <;> rcases named with rfl | rfl <;> decide
  rw [attrs, Table.getElem?_insert, if_neg other.1, Table.getElem?_insert, if_neg other.2]
  simp

/-- Rules are made of entries of the cache only. -/
theorem exists_of_mem_prebuilts (member : rule ∈ prebuilts entries) :
    ∃ e ∈ entries, e.materialized = true ∧ prebuilt e = rule := by
  obtain ⟨e, listed, rfl⟩ := List.mem_map.mp member
  obtain ⟨name, held⟩ := Table.mem_values_iff.mp listed
  obtain ⟨e', inside, -, rfl⟩ := Table.exists_of_foldl_insert held
  obtain ⟨inside, stored⟩ := List.mem_filter.mp inside
  exact ⟨e', inside, stored, rfl⟩

/-- Every entry of the cache has its rule. -/
theorem mem_prebuilts (tidy : Tidy entries) (apart : Apart entries) (member : e ∈ entries)
    (stored : e.materialized = true) : prebuilt e ∈ prebuilts entries := by
  have inside : e ∈ entries.filter (·.materialized) := List.mem_filter.mpr ⟨member, stored⟩
  obtain ⟨e', inside', same, held⟩ :=
    Table.foldl_insert_of_mem ruleName id inside (∅ : Table String CacheEntry)
  obtain ⟨member', stored'⟩ := List.mem_filter.mp inside'
  obtain rfl := tidy.ruleName_inj apart member' member stored' stored same
  exact List.mem_map.mpr ⟨e', Table.mem_values_iff.mpr ⟨_, held⟩, rfl⟩

/-- The rules for files have different names. -/
theorem nodup_prebuilts (entries : List CacheEntry) : ((prebuilts entries).map name).Nodup := by
  unfold prebuilts
  generalize filled : (entries.filter (·.materialized)).foldl
    (fun (table : Table String CacheEntry) e => table.insert e.ruleName e) ∅ = byName
  have named : ∀ entry ∈ byName.toList, entry.2.ruleName = entry.1 := by
    rintro ⟨name, e⟩ listed
    have held := Std.ExtTreeMap.mem_toList_iff_getElem?_eq_some.mp listed
    rw [← filled] at held
    obtain ⟨e', -, same, rfl⟩ := Table.exists_of_foldl_insert held
    exact same
  have names : (byName.values.map prebuilt).map name = byName.keys := by
    rw [Table.values_eq, List.map_map, List.map_map, ← Std.ExtTreeMap.map_fst_toList_eq_keys]
    exact List.map_congr_left fun entry listed => (prebuilt_name _).trans (named entry listed)
  rw [names]
  exact Std.ExtTreeMap.nodup_keys

/-- Every rule of a list that stands for a file is the one for a file of the cache. -/
def Only (entries : List CacheEntry) (rules : List Rule) : Prop :=
  ∀ rule ∈ rules, rule.isPrebuilt = true →
    ∃ e ∈ entries, e.materialized = true ∧ rule = prebuilt e

theorem only_prebuilts (entries : List CacheEntry) : Only entries (prebuilts entries) := by
  intro rule member _
  obtain ⟨e, inside, stored, rfl⟩ := exists_of_mem_prebuilts member
  exact ⟨e, inside, stored, rfl⟩

theorem only_bundle {bundle : Rule} (library : bundle.ruleType = "java_library") :
    Only entries (prebuilts entries ++ [bundle]) := by
  intro rule member stands
  rcases List.mem_append.mp member with inside | own
  · exact only_prebuilts entries rule inside stands
  · obtain rfl := List.mem_singleton.mp own
    simp [isPrebuilt, library] at stands

/-- A list of rules that can be loaded, with one rule for each file of the cache. -/
structure WellFormed (entries : List CacheEntry) (rules : List Rule) : Prop where
  names : (rules.map name).Nodup
  /-- The coordinate of a file of the cache has one rule that stands for a file. -/
  single : ∀ e ∈ entries, e.materialized = true →
    rules.filter (fun rule => rule.isPrebuilt && rule.coordinates? = some (.text e.key.text)) =
      [prebuilt e]
  only : Only entries rules
  /-- What a rule refers to is in the list. -/
  closed : ∀ rule ∈ rules, ∀ attr ∈ references, ∀ items, rule.attrs[attr]? = some (.list items) →
    ∀ item ∈ items, ∃ other ∈ rules, item = other.localTarget

private theorem filter_eq_singleton {α : Type} {p : α → Bool} {l : List α} {x : α}
    (nodup : l.Nodup) (member : x ∈ l) (holds : p x = true) (only : ∀ y ∈ l, p y = true → y = x) :
    l.filter p = [x] := by
  have inside : x ∈ l.filter p := List.mem_filter.mpr ⟨member, holds⟩
  have same : ∀ y ∈ l.filter p, y = x := fun y kept =>
    only y (List.mem_filter.mp kept).1 (List.mem_filter.mp kept).2
  have repeated : l.filter p = List.replicate (l.filter p).length x :=
    List.eq_replicate_iff.mpr ⟨rfl, same⟩
  have once : (l.filter p).length ≤ 1 := List.nodup_replicate.mp (repeated ▸ nodup.filter p)
  have some_ : 0 < (l.filter p).length := List.length_pos_of_mem inside
  rw [repeated, Nat.le_antisymm once some_]
  rfl

/-- Different names and the right rules for files make the rule for each file the only one. -/
theorem wellFormed_of_names (tidy : Tidy entries) (names : (rules.map name).Nodup)
    (made : ∀ e ∈ entries, e.materialized = true → prebuilt e ∈ rules)
    (only : Only entries rules)
    (closed : ∀ rule ∈ rules, ∀ attr ∈ references, ∀ items,
      rule.attrs[attr]? = some (.list items) → ∀ item ∈ items, ∃ other ∈ rules,
        item = other.localTarget) : WellFormed entries rules where
  names := names
  single e member stored := by
    have different : rules.Nodup :=
      (List.pairwise_map.mp names).imp fun differ same => differ (congrArg name same)
    refine filter_eq_singleton different (made e member stored) (by simp) ?_
    intro rule inside matches_
    rw [Bool.and_eq_true, decide_eq_true_eq] at matches_
    obtain ⟨e', member', -, rfl⟩ := only rule inside matches_.1
    rw [prebuilt_coordinates, Option.some.injEq, AttrValue.text.injEq] at matches_
    rw [tidy.single e' member' e member (ArtifactKey.eq_of_text matches_.2)]
  only := only
  closed := closed

/-- The rules for files alone. -/
theorem wellFormed_prebuilts (tidy : Tidy entries) (apart : Apart entries) :
    WellFormed entries (prebuilts entries) := by
  refine wellFormed_of_names tidy (nodup_prebuilts entries)
    (fun e member stored => mem_prebuilts tidy apart member stored) (only_prebuilts entries) ?_
  intro rule member attr reference items held
  obtain ⟨e, -, -, rfl⟩ := exists_of_mem_prebuilts member
  rw [prebuilt_refers reference] at held
  cases held

/-- The rules for files with one rule that gives access to all of them. -/
theorem wellFormed_bundle (tidy : Tidy entries) (apart : Apart entries) {bundle : Rule}
    {title : String} (undotted : '.' ∉ title.toList) (named : bundle.name = title)
    (library : bundle.ruleType = "java_library")
    (refers : ∀ attr ∈ references, ∀ items, bundle.attrs[attr]? = some (.list items) →
      items = (prebuilts entries).map localTarget) :
    WellFormed entries (prebuilts entries ++ [bundle]) := by
  have plain := wellFormed_prebuilts tidy apart
  refine wellFormed_of_names tidy ?_ ?_ (only_bundle library) ?_
  · rw [List.map_append, List.nodup_append]
    refine ⟨plain.names, by simp, fun name member name' member' same => ?_⟩
    obtain ⟨rule, inside, rfl⟩ := List.mem_map.mp member
    obtain ⟨e, listed, stored, rfl⟩ := exists_of_mem_prebuilts inside
    obtain rfl : bundle.name = name' := by simpa [eq_comm] using member'
    rw [← named, ← same, prebuilt_name] at undotted
    exact undotted (tidy.dot_mem listed stored)
  · exact fun e member stored => List.mem_append_left _ (mem_prebuilts tidy apart member stored)
  · intro rule member attr reference items held item listed
    rcases List.mem_append.mp member with inside | own
    · obtain ⟨found, member, same⟩ := plain.closed rule inside attr reference items held item listed
      exact ⟨found, List.mem_append_left _ member, same⟩
    · obtain rfl := List.mem_singleton.mp own
      rw [refers attr reference items held] at listed
      obtain ⟨found, member, rfl⟩ := List.mem_map.mp listed
      exact ⟨found, List.mem_append_left _ member, rfl⟩

end Rule

end RuleDepot
