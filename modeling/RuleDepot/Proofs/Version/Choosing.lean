import Mathlib.Data.List.Induction
import RuleDepot.Proofs.Tables
import RuleDepot.Proofs.Version.Ordering
import RuleDepot.Version.Selection
/-!
Which of the requested versions is chosen.  Sorting puts versions in a new order and loses none, and
as long as all of them are compared in one way the outcome is the one ascending list in which equal
versions stand in the order of their bytes.  So the last version is one that no other is later than,
whoever asked for it, and the others or the refusal are told in that order.
-/

namespace RuleDepot

open Std

namespace Version

variable {versions : List String} {a b c : String}

/-- Versions that can all be read as semantic ones, or none of which can. -/
def Homogeneous (versions : List String) : Prop :=
  (∀ v ∈ versions, IsSemantic v) ∨ ∀ v ∈ versions, ¬ IsSemantic v

instance (versions : List String) : Decidable (Homogeneous versions) :=
  inferInstanceAs (Decidable (_ ∨ _))

/-- The order in which versions are listed: the earlier version first, and of two that are equal the
one whose bytes are. -/
def Before (a b : String) : Prop :=
  order a b = .lt ∨ order a b = .eq ∧ a < b

instance (a b : String) : Decidable (Before a b) :=
  inferInstanceAs (Decidable (_ ∨ _))

private theorem order_self (a : String) : order a a = .eq := by
  have swapped := order_swap a a
  cases compared : order a a with
  | eq => rfl
  | lt =>
    rw [compared] at swapped
    cases swapped
  | gt =>
    rw [compared] at swapped
    cases swapped

private theorem Before.order_ne_gt (before : Before a b) : order a b ≠ .gt := by
  rcases before with earlier | ⟨equal, -⟩
  · simp [earlier]
  · simp [equal]

private theorem Before.not_before (before : Before a b) : ¬ Before b a := by
  intro back
  unfold Before at before back
  rw [order_swap a b] at back
  rcases before with earlier | ⟨equal, less⟩
  · simp [earlier] at back
  · simp only [equal, Ordering.swap_eq, reduceCtorEq, true_and, false_or] at back
    exact String.lt_asymm less back

private theorem Before.ne (before : Before a b) : a ≠ b := by
  rintro rfl
  exact before.not_before before

/-- What is not earlier than a version whose bytes come first is listed behind it. -/
theorem before_of_not_lt (notEarlier : order a b ≠ .lt) (bytes : b < a) : Before b a := by
  unfold Before
  rw [order_swap a b]
  cases compared : order a b with
  | lt => exact absurd compared notEarlier
  | eq => exact Or.inr ⟨rfl, bytes⟩
  | gt => exact Or.inl rfl

namespace Homogeneous

variable (homogeneous : Homogeneous versions)
include homogeneous

private theorem sublist {versions' : List String} (fewer : ∀ v ∈ versions', v ∈ versions) :
    Homogeneous versions' :=
  homogeneous.imp (fun semantic v member => semantic v (fewer v member))
    fun others v member => others v (fewer v member)

private theorem order_ne_gt_trans (first : a ∈ versions) (second : b ∈ versions) (third : c ∈ versions)
    (below : order a b ≠ .gt) (below' : order b c ≠ .gt) : order a c ≠ .gt := by
  refine order_trans ?_ below below'
  rcases homogeneous with semantic | others
  · exact Or.inl ⟨semantic a first, semantic b second, semantic c third⟩
  · exact Or.inr (Or.inl ⟨others a first, others b second⟩)

/-- Versions that are compared in one way are ordered as they are listed. -/
theorem before_trans (first : a ∈ versions) (second : b ∈ versions) (third : c ∈ versions)
    (before : Before a b) (before' : Before b c) : Before a c := by
  have below : order a c ≠ .gt := homogeneous.order_ne_gt_trans first second third
    before.order_ne_gt before'.order_ne_gt
  cases compared : order a c with
  | gt => exact absurd compared below
  | lt => exact Or.inl compared
  | eq =>
    -- Both steps lead between equal versions: an earlier one could be reached from a later one.
    have back : order c a ≠ .gt := by
      rw [order_swap, compared]
      decide
    have equal : order a b = .eq := by
      have turned := homogeneous.order_ne_gt_trans second third first before'.order_ne_gt back
      rw [order_swap a b] at turned
      have onward := before.order_ne_gt
      cases step : order a b <;> simp_all
    have equal' : order b c = .eq := by
      have turned := homogeneous.order_ne_gt_trans third first second back before.order_ne_gt
      rw [order_swap b c] at turned
      have onward := before'.order_ne_gt
      cases step : order b c <;> simp_all
    have less : a < b := by simpa [Before, equal] using before
    have less' : b < c := by simpa [Before, equal'] using before'
    exact Or.inr ⟨compared, String.lt_trans less less'⟩

end Homogeneous

end Version

namespace VersionRequests

open Version

variable {requests requests' : VersionRequests} {v version : String} {versions sorted : List String}
  {id id' : String} {policy : ConflictPolicy} {selection : Selection}

theorem lt_of_compare {a b : String} (less : compare a b = .lt) : a < b :=
  compareOfLessAndEq_eq_lt.mp less

private theorem sink_perm : (sink version versions).Perm (version :: versions) := by
  induction versions with
  | nil => exact List.Perm.refl _
  | cons later rest ih =>
    rw [sink]
    split
    · exact (ih.cons later).trans (List.Perm.swap version later rest)
    · exact List.Perm.refl _

private theorem sortVersions_concat (versions : List String) (v : String) :
    sortVersions (versions ++ [v]) = (sink v (sortVersions versions).reverse).reverse := by
  simp only [sortVersions, List.foldl_append, List.foldl_cons, List.foldl_nil, List.reverse_reverse]

/-- Sorting keeps every version as often as it is there. -/
theorem sortVersions_perm (versions : List String) : (sortVersions versions).Perm versions := by
  induction versions using List.reverseRecOn with
  | nil => exact List.Perm.refl _
  | append_singleton versions v ih =>
    rw [sortVersions_concat]
    calc (sink v (sortVersions versions).reverse).reverse.Perm
          (sink v (sortVersions versions).reverse) := List.reverse_perm _
      _ |>.Perm (v :: (sortVersions versions).reverse) := sink_perm
      _ |>.Perm (v :: versions) := ((List.reverse_perm _).trans ih).cons v
      _ |>.Perm (versions ++ [v]) := (List.perm_append_singleton v versions).symm

/-- A version whose bytes come behind those of sorted ones finds its place among them. -/
theorem sink_pairwise (homogeneous : Homogeneous (version :: sorted))
    (bytes : ∀ w ∈ sorted, w < version) (descending : sorted.Pairwise fun a b => Before b a) :
    (sink version sorted).Pairwise fun a b => Before b a := by
  induction sorted with
  | nil => exact List.pairwise_singleton _ _
  | cons later rest ih =>
    obtain ⟨above, descending'⟩ := List.pairwise_cons.mp descending
    rw [sink]
    split
    · rename_i earlier
      refine List.pairwise_cons.mpr ⟨fun w member => ?_, ?_⟩
      · rcases List.mem_cons.mp (sink_perm.mem_iff.mp member) with rfl | inside
        · exact Or.inl earlier
        · exact above w inside
      · refine ih (homogeneous.sublist fun w member => ?_) (fun w member => ?_) descending'
        · rcases List.mem_cons.mp member with rfl | inside
          · exact List.mem_cons_self
          · exact List.mem_cons_of_mem _ (List.mem_cons_of_mem _ inside)
        · exact bytes w (List.mem_cons_of_mem _ member)
    · rename_i notEarlier
      have top : Before later version := before_of_not_lt notEarlier (bytes later List.mem_cons_self)
      refine List.pairwise_cons.mpr ⟨fun w member => ?_, descending⟩
      rcases List.mem_cons.mp member with rfl | inside
      · exact top
      · exact homogeneous.before_trans (List.mem_cons_of_mem _ member)
          (List.mem_cons_of_mem _ List.mem_cons_self) List.mem_cons_self (above w inside) top

/-- Versions that are compared in one way and stand in the order of their bytes are sorted. -/
theorem sortVersions_pairwise (homogeneous : Homogeneous versions)
    (bytes : versions.Pairwise (· < ·)) : (sortVersions versions).Pairwise Before := by
  induction versions using List.reverseRecOn with
  | nil => exact List.Pairwise.nil
  | append_singleton versions v ih =>
    obtain ⟨bytes', -, above⟩ := List.pairwise_append.mp bytes
    have member {w : String} (inside : w ∈ (sortVersions versions).reverse) : w ∈ versions :=
      (sortVersions_perm versions).mem_iff.mp (List.mem_reverse.mp inside)
    rw [sortVersions_concat, List.pairwise_reverse]
    apply sink_pairwise
    · refine homogeneous.sublist fun w inside => ?_
      rcases List.mem_cons.mp inside with rfl | inside
      · exact List.mem_append_right _ List.mem_cons_self
      · exact List.mem_append_left _ (member inside)
    · intro w inside
      exact above w (member inside) v List.mem_cons_self
    · rw [List.pairwise_reverse]
      exact ih (homogeneous.sublist fun w inside => List.mem_append_left _ inside) bytes'

private theorem ascending_perm (requests : VersionRequests) : requests.ascending.Perm requests.keys :=
  sortVersions_perm _

theorem mem_ascending : v ∈ requests.ascending ↔ v ∈ requests :=
  (ascending_perm requests).mem_iff.trans ExtTreeMap.mem_keys

theorem nodup_ascending (requests : VersionRequests) : requests.ascending.Nodup :=
  (ascending_perm requests).nodup_iff.mpr ExtTreeMap.nodup_keys

private theorem length_ascending (requests : VersionRequests) : requests.ascending.length = requests.size :=
  (ascending_perm requests).length_eq.trans ExtTreeMap.length_keys

private theorem ascending_pairwise (homogeneous : Homogeneous requests.keys) :
    requests.ascending.Pairwise Before :=
  sortVersions_pairwise homogeneous (ExtTreeMap.ordered_keys.imp lt_of_compare)

/-- The order of the requested versions does not depend on who asked. -/
theorem ascending_congr (same : ∀ version, version ∈ requests ↔ version ∈ requests') :
    requests.ascending = requests'.ascending := by
  have unnamed : requests.map (fun _ _ => ()) = requests'.map (fun _ _ => ()) :=
    ExtTreeMap.ext_mem_unit fun version => by
      rw [ExtTreeMap.mem_map, ExtTreeMap.mem_map, same]
  rw [ascending, ascending, ← ExtTreeMap.keys_map, unnamed, ExtTreeMap.keys_map]

/-- What a choice comes to, by the list of all versions. -/
theorem select_of_ascending {overridden : List String}
    (sorted : requests.ascending = overridden ++ [version]) (id : String) (policy : ConflictPolicy) :
    requests.select id policy =
      if overridden = [] ∨ mergeable policy requests.ascending = true then .ok ⟨version, overridden⟩
      else .error (.versionConflict (requests.conflict id policy)) := by
  unfold select
  simp only [sorted, List.getLast?_append, List.getLast?_singleton, Option.some_or,
    List.length_append, List.length_singleton, Nat.add_eq_right, List.length_eq_zero_iff,
    List.dropLast_concat]
  cases overridden with
  | nil => simp
  | cons first rest => simp

theorem select_highest {overridden : List String}
    (sorted : requests.ascending = overridden ++ [version]) (id : String) :
    requests.select id .highest = .ok ⟨version, overridden⟩ := by
  have merged : mergeable .highest requests.ascending = true := rfl
  rw [select_of_ascending sorted, if_pos (Or.inr merged)]

theorem exists_of_not_isEmpty (some_ : requests.isEmpty = false) : ∃ version, version ∈ requests := by
  rwa [← Bool.not_eq_true, ExtTreeMap.isEmpty_iff, ExtTreeMap.eq_empty_iff_forall_not_mem,
    not_forall_not] at some_

theorem exists_ascending (requested : version ∈ requests) :
    ∃ overridden chosen, requests.ascending = overridden ++ [chosen] := by
  have some_ : requests.ascending ≠ [] := List.ne_nil_of_mem (mem_ascending.mpr requested)
  exact ⟨_, _, (List.dropLast_append_getLast some_).symm⟩

private theorem select_of_empty (empty : requests.ascending = []) : requests.select id policy =
    .error (.protocolViolation "version selection" s!"no versions requested for '{id}'") := by
  unfold select
  simp only [empty, List.getLast?_nil]

/-- What is selected is the last of the requested versions, and it overrides all others. -/
theorem ascending_of_select (chosen : requests.select id policy = .ok selection) :
    requests.ascending = selection.overridden ++ [selection.version] := by
  rcases List.eq_nil_or_concat requests.ascending with empty | ⟨overridden, last, sorted⟩
  · rw [select_of_empty empty] at chosen
    cases chosen
  · rw [List.concat_eq_append] at sorted
    rw [select_of_ascending sorted] at chosen
    split at chosen
    · cases chosen
      exact sorted
    · cases chosen

/-- The version that is chosen is one of those that were requested. -/
theorem mem_of_select (chosen : requests.select id policy = .ok selection) :
    selection.version ∈ requests := by
  rw [← mem_ascending, ascending_of_select chosen]
  exact List.mem_append_right _ List.mem_cons_self

/-- Every other version that was requested is overridden. -/
theorem mem_overridden_iff (chosen : requests.select id policy = .ok selection) :
    v ∈ selection.overridden ↔ v ∈ requests ∧ v ≠ selection.version := by
  have sorted := ascending_of_select chosen
  have single := nodup_ascending requests
  rw [sorted, List.nodup_append] at single
  obtain ⟨-, -, apart⟩ := single
  rw [← mem_ascending, sorted, List.mem_append, List.mem_singleton]
  constructor
  · intro overridden
    exact ⟨Or.inl overridden, apart v overridden _ List.mem_cons_self⟩
  · rintro ⟨overridden | chosen, other⟩
    · exact overridden
    · exact absurd chosen other

/-- All requested versions but one are overridden. -/
theorem length_overridden (chosen : requests.select id policy = .ok selection) :
    selection.overridden.length + 1 = requests.size := by
  rw [← length_ascending, ascending_of_select chosen, List.length_append, List.length_singleton]

/-- What is selected does not depend on who asked. -/
theorem select_congr (same : ∀ version, version ∈ requests ↔ version ∈ requests')
    (chosen : requests.select id policy = .ok selection) :
    requests'.select id' policy = .ok selection := by
  rcases List.eq_nil_or_concat requests.ascending with empty | ⟨overridden, last, sorted⟩
  · rw [select_of_empty empty] at chosen
    cases chosen
  · rw [List.concat_eq_append] at sorted
    rw [select_of_ascending sorted] at chosen
    rw [select_of_ascending (ascending_congr same ▸ sorted), ← ascending_congr same]
    split at chosen
    · rename_i merged
      rwa [if_pos merged]
    · cases chosen

/-- A choice that is the best there is: no requested version is later, and all others are listed in
their order. -/
structure Ranked (requests : VersionRequests) (selection : Selection) : Prop where
  requested : selection.version ∈ requests
  greatest : ∀ v ∈ requests, order selection.version v ≠ .lt
  others : ∀ v, v ∈ selection.overridden ↔ v ∈ requests ∧ v ≠ selection.version
  ascending : selection.overridden.Pairwise Before

/-- A refusal that tells everything there is: each version once in the order of versions, with
everyone who asked for it. -/
structure Lists (requests : VersionRequests) (conflict : VersionConflict) : Prop where
  ascending : (conflict.requests.map VersionRequest.version).Pairwise Before
  versions : ∀ v, v ∈ conflict.requests.map VersionRequest.version ↔ v ∈ requests
  requesters : ∀ request ∈ conflict.requests, ∃ names, requests[request.version]? = some names ∧
    request.requestedBy.Pairwise (· < ·) ∧ ∀ who, who ∈ request.requestedBy ↔ who ∈ names

private theorem ranked_of_ascending {overridden : List String} (homogeneous : Homogeneous requests.keys)
    (sorted : requests.ascending = overridden ++ [version]) :
    Ranked requests ⟨version, overridden⟩ := by
  have member (v : String) : v ∈ requests ↔ v ∈ overridden ∨ v = version := by
    rw [← mem_ascending, sorted, List.mem_append, List.mem_singleton]
  have pairwise := ascending_pairwise homogeneous
  rw [sorted, List.pairwise_append] at pairwise
  obtain ⟨ascending, -, above⟩ := pairwise
  have below (v : String) (inside : v ∈ overridden) : Before v version :=
    above v inside version List.mem_cons_self
  constructor
  · exact (member version).mpr (Or.inr rfl)
  · intro v asked
    rw [order_swap v version]
    rcases (member v).mp asked with inside | rfl
    · have notLater := (below v inside).order_ne_gt
      cases compared : order v version <;> simp_all
    · simp [order_self]
  · intro v
    rw [member]
    constructor
    · intro inside
      exact ⟨Or.inl inside, (below v inside).ne⟩
    · rintro ⟨inside | rfl, other⟩
      · exact inside
      · exact absurd rfl other
  · exact ascending

/-- A refusal names each requested version once. -/
theorem versions_conflict (requests : VersionRequests) (id : String) (policy : ConflictPolicy) :
    (requests.conflict id policy).requests.map VersionRequest.version = requests.ascending := by
  rw [conflict, List.map_map]
  exact List.map_id _

/-- With each version a refusal names everyone who asked for it. -/
theorem requesters_conflict {request : VersionRequest}
    (told : request ∈ (requests.conflict id policy).requests) :
    ∃ names, requests[request.version]? = some names ∧ request.requestedBy = names.toList := by
  obtain ⟨v, listed, rfl⟩ := List.mem_map.mp told
  have asked := mem_ascending.mp listed
  rw [ExtTreeMap.mem_iff_isSome_getElem?] at asked
  obtain ⟨names, held⟩ := Option.isSome_iff_exists.mp asked
  refine ⟨names, held, ?_⟩
  simp only [requesters, held]

theorem lists_conflict (homogeneous : Homogeneous requests.keys) (id : String)
    (policy : ConflictPolicy) : Lists requests (requests.conflict id policy) := by
  constructor
  · rw [versions_conflict]
    exact ascending_pairwise homogeneous
  · intro v
    rw [versions_conflict]
    exact mem_ascending
  · intro request told
    obtain ⟨names, held, listed⟩ := requesters_conflict told
    refine ⟨names, held, ?_, fun who => ?_⟩
    · rw [listed]
      exact ExtTreeSet.ordered_toList.imp lt_of_compare
    · rw [listed, ExtTreeSet.mem_toList]

/-- **Requested versions are ranked.**  If at least one version is requested and all are compared in
one way, merging chooses one that no other is later than and lists all others in their order.
Without merging, a single version is chosen, and several are refused with a list of all of them in
that order and of everyone who asked for each.  Under every policy what is chosen depends on the
versions only, not on who asked. -/
theorem requested_versions_are_ranked (requests : VersionRequests) (id : String)
    (requested : requests.isEmpty = false) (homogeneous : Homogeneous requests.keys) :
    ∃ selection, Ranked requests selection ∧
      requests.select id .highest = .ok selection ∧
      (requests.size = 1 → requests.select id .fail = .ok selection) ∧
      (requests.size ≠ 1 → ∃ conflict, Lists requests conflict ∧ conflict.logicalId = id ∧
        conflict.policy = .fail ∧ requests.select id .fail = .error (.versionConflict conflict)) ∧
      ∀ requests' : VersionRequests, (∀ v, v ∈ requests' ↔ v ∈ requests) → ∀ id' policy,
        (requests'.select id' policy).toOption = (requests.select id policy).toOption := by
  obtain ⟨version, asked⟩ := exists_of_not_isEmpty requested
  obtain ⟨overridden, chosen, sorted⟩ := exists_ascending asked
  have single : overridden = [] ↔ requests.size = 1 := by
    rw [← length_ascending, sorted, List.length_append, List.length_singleton, Nat.add_eq_right,
      List.length_eq_zero_iff]
  refine ⟨⟨chosen, overridden⟩, ranked_of_ascending homogeneous sorted, ?_, ?_, ?_, ?_⟩
  · exact select_highest sorted id
  · intro one
    rw [select_of_ascending sorted, if_pos (Or.inl (single.mpr one))]
  · intro several
    refine ⟨requests.conflict id .fail, lists_conflict homogeneous id .fail, rfl, rfl, ?_⟩
    rw [select_of_ascending sorted, if_neg]
    rintro (none | merged)
    · exact several (single.mp none)
    · cases merged
  · intro requests' same id' policy
    cases ran : requests.select id policy with
    | ok selection => rw [select_congr (fun v => (same v).symm) ran]
    | error e =>
      cases ran' : requests'.select id' policy with
      | ok selection =>
        have also : requests.select id policy = .ok selection := select_congr same ran'
        rw [also] at ran
        cases ran
      | error e' => rfl

theorem short_versions_are_ranked :
    let requests : VersionRequests := (∅ : VersionRequests).insert "1.10" (.ofList ["b", "a"])
      |>.insert "1.9" (.ofList ["c"])
    requests.isEmpty = false ∧ Homogeneous requests.keys ∧
      requests.select "gson" .highest = .ok ⟨"1.10", ["1.9"]⟩ := by
  intro requests
  have requested : requests.isEmpty = false := by decide
  have homogeneous : Homogeneous requests.keys := by decide
  obtain ⟨selection, -, chosen, -⟩ :=
    requested_versions_are_ranked requests "gson" requested homogeneous
  have evaluated : requests.select "gson" .highest = .ok ⟨"1.10", ["1.9"]⟩ := by decide
  rw [chosen] at evaluated
  exact ⟨requested, homogeneous, chosen.trans evaluated⟩

end VersionRequests

end RuleDepot
