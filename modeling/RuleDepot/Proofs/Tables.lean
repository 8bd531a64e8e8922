import Mathlib.Data.List.Dedup
import RuleDepot.Table
/-!
Tables as their look-ups: what a table lists is what it can be asked for.
-/

namespace RuleDepot.Table

open Std

variable {κ ν : Type} [Ord κ] [TransOrd κ]

theorem values_eq (t : Table κ ν) : t.values = t.toList.map Prod.snd := by
  have folded : t.values = t.foldr (fun _ v rest => v :: rest) [] := by
    cases t with
    | mk inner => exact inner.inductionOn fun _ => rfl
  rw [folded, ExtTreeMap.foldr_eq_foldr_toList]
  induction t.toList with
  | nil => rfl
  | cons pair rest ih => simp [ih]

theorem length_values (t : Table κ ν) : t.values.length = t.size := by
  simp [values_eq]

theorem mem_values_iff [LawfulEqOrd κ] {t : Table κ ν} {v : ν} :
    v ∈ t.values ↔ ∃ k : κ, t[k]? = some v := by
  simp [values_eq]

/-- A table has several entries if several keys are in it. -/
theorem one_lt_size_iff [LawfulEqOrd κ] {t : Table κ ν} :
    1 < t.size ↔ ∃ k ∈ t, ∃ k' ∈ t, k ≠ k' := by
  have single : t.keys.Nodup := ExtTreeMap.nodup_keys
  simp only [← ExtTreeMap.length_keys, ← ExtTreeMap.mem_keys]
  cases listed : t.keys with
  | nil => simp
  | cons k rest =>
    cases rest with
    | nil => simp
    | cons k' others =>
      rw [listed] at single
      have differ : k ≠ k' := List.ne_of_not_mem_cons (List.nodup_cons.mp single).1
      simp only [List.length_cons, Nat.lt_add_left_iff_pos, Nat.zero_lt_succ, true_iff]
      exact ⟨k, List.mem_cons_self, k', List.mem_cons_of_mem _ List.mem_cons_self, differ⟩

theorem getElem?_insert [LawfulEqOrd κ] [DecidableEq κ] {t : Table κ ν} {k k' : κ} {v : ν} :
    (t.insert k v)[k']? = if k = k' then some v else t[k']? := by
  simp only [ExtTreeMap.getElem?_insert, Std.compare_eq_iff_eq]

/-- Values under different keys can be put in any order. -/
theorem insert_comm [LawfulEqOrd κ] [DecidableEq κ] {t : Table κ ν} {k k' : κ} {v v' : ν}
    (differ : k ≠ k') : (t.insert k' v').insert k v = (t.insert k v).insert k' v' := by
  refine ExtTreeMap.ext_getElem? fun other => ?_
  simp only [getElem?_insert]
  by_cases own : k = other
  · simp [own, (own ▸ differ.symm : k' ≠ other)]
  · simp [own]

theorem getElem?_alter [LawfulEqOrd κ] [DecidableEq κ] {t : Table κ ν} {k k' : κ}
    {f : Option ν → Option ν} :
    (t.alter k f)[k']? = if k = k' then f t[k]? else t[k']? := by
  simp only [ExtTreeMap.getElem?_alter, Std.compare_eq_iff_eq]

/-- What holds of the look-ups of a table and of one more holds after that is put in. -/
theorem forall_insert [LawfulEqOrd κ] [DecidableEq κ] {t : Table κ ν} {k : κ} {v : ν}
    {holds : κ → ν → Prop} (own : holds k v) (others : ∀ k' v', t[k']? = some v' → holds k' v') :
    ∀ k' v', (t.insert k v)[k']? = some v' → holds k' v' := by
  intro k' v' held
  rw [getElem?_insert] at held
  split at held
  · rename_i same
    cases held
    exact same ▸ own
  · exact others k' v' held

/-- The first entry of a table that passes a test is the one with the least key. -/
theorem find?_toList_eq_some_iff [LawfulEqOrd κ] {t : Table κ ν} {p : κ × ν → Bool} {k : κ} {v : ν} :
    t.toList.find? p = some (k, v) ↔ t[k]? = some v ∧ p (k, v) = true ∧
      ∀ k' v', t[k']? = some v' → p (k', v') = true → compare k' k ≠ .lt := by
  have listed {k : κ} {v : ν} : (k, v) ∈ t.toList ↔ t[k]? = some v :=
    ExtTreeMap.mem_toList_iff_getElem?_eq_some
  have least {k : κ} {v : ν} (found : t.toList.find? p = some (k, v)) :
      ∀ k' v', t[k']? = some v' → p (k', v') = true → compare k' k ≠ .lt := by
    intro k' v' held passes
    obtain ⟨-, front, back, split, refused⟩ := List.find?_eq_some_iff_append.mp found
    have ordered := ExtTreeMap.ordered_keys_toList (t := t)
    have member := listed.mpr held
    rw [split] at ordered member
    rcases List.mem_append.mp member with before | after
    · have refusal := refused _ before
      simp [passes] at refusal
    · rcases List.mem_cons.mp after with same | behind
      · cases same
        simp
      · obtain ⟨-, later, -⟩ := List.pairwise_append.mp ordered
        have above := (List.pairwise_cons.mp later).1 _ behind
        rw [OrientedCmp.gt_iff_lt.mpr above]
        simp
  constructor
  · intro found
    exact ⟨listed.mp (List.mem_of_find?_eq_some found), List.find?_some found, least found⟩
  · rintro ⟨held, passes, first⟩
    have some_ : (t.toList.find? p).isSome = true :=
      List.find?_isSome.mpr ⟨_, listed.mpr held, passes⟩
    obtain ⟨⟨k', v'⟩, found⟩ := Option.isSome_iff_exists.mp some_
    have held' := listed.mp (List.mem_of_find?_eq_some found)
    have notLater := least found k v held passes
    have notEarlier := first k' v' held' (List.find?_some found)
    have same : k' = k := by
      apply LawfulEqOrd.eq_of_compare
      cases compared : compare k' k with
      | lt => exact absurd compared notEarlier
      | eq => rfl
      | gt => exact absurd (OrientedCmp.gt_iff_lt.mp compared) notLater
    subst same
    rw [found, Option.some.inj (held'.symm.trans held)]

variable {α : Type} {key : α → κ} {value : α → ν} {items : List α}

/-- A table that was filled from a list gives the last item of a key. -/
theorem getElem?_foldl_insert [LawfulEqOrd κ] [DecidableEq κ] (t : Table κ ν) (k : κ) :
    (items.foldl (fun t x => t.insert (key x) (value x)) t)[k]? =
      ((items.reverse.find? fun x => key x = k).map value).or t[k]? := by
  induction items generalizing t with
  | nil => rfl
  | cons x rest ih =>
    rw [List.foldl_cons, ih, getElem?_insert, List.reverse_cons, List.find?_append]
    cases rest.reverse.find? fun x => key x = k with
    | some found => rfl
    | none =>
      by_cases same : key x = k <;> simp [same]

/-- What such a table gives is made of an item with the key that was asked for. -/
theorem exists_of_foldl_insert [LawfulEqOrd κ] [DecidableEq κ] {k : κ} {v : ν}
    (held : (items.foldl (fun t x => t.insert (key x) (value x)) (∅ : Table κ ν))[k]? = some v) :
    ∃ x ∈ items, key x = k ∧ value x = v := by
  rw [getElem?_foldl_insert] at held
  have missing : (∅ : Table κ ν)[k]? = none := by simp
  rw [missing, Option.or_none, Option.map_eq_some_iff] at held
  obtain ⟨x, found, made⟩ := held
  exact ⟨x, List.mem_reverse.mp (List.mem_of_find?_eq_some found), by simpa using List.find?_some found,
    made⟩

/-- Every key of an item has an item. -/
theorem foldl_insert_of_mem [LawfulEqOrd κ] [DecidableEq κ] {x : α} (key : α → κ) (value : α → ν)
    (member : x ∈ items) (t : Table κ ν) : ∃ y ∈ items, key y = key x ∧
      (items.foldl (fun t x => t.insert (key x) (value x)) t)[key x]? = some (value y) := by
  rw [getElem?_foldl_insert]
  have some_ : (items.reverse.find? fun y => key y = key x).isSome = true := by
    rw [List.find?_isSome]
    exact ⟨x, List.mem_reverse.mpr member, by simp⟩
  obtain ⟨y, found⟩ := Option.isSome_iff_exists.mp some_
  refine ⟨y, List.mem_reverse.mp (List.mem_of_find?_eq_some found), ?_, by simp [found]⟩
  simpa using List.find?_some found

/-- A table that is filled with what another one lists is that one. -/
theorem foldl_insert_toList [LawfulEqOrd κ] [DecidableEq κ] (t : Table κ ν) :
    t.toList.foldl (fun table (entry : κ × ν) => table.insert entry.1 entry.2) (∅ : Table κ ν) = t := by
  refine ExtTreeMap.ext_getElem? fun k => ?_
  have missing : (∅ : Table κ ν)[k]? = none := by simp
  rw [getElem?_foldl_insert, missing, Option.or_none]
  have listed : ∀ entry ∈ t.toList.reverse, t[entry.1]? = some entry.2 := fun entry member =>
    ExtTreeMap.mem_toList_iff_getElem?_eq_some.mp (List.mem_reverse.mp member)
  cases found : t.toList.reverse.find? fun entry => entry.1 = k with
  | some entry =>
    have same : entry.1 = k := by simpa using List.find?_some found
    rw [Option.map_some, ← listed entry (List.mem_of_find?_eq_some found), same]
  | none =>
    cases held : t[k]? with
    | none => rfl
    | some v =>
      have member : (k, v) ∈ t.toList.reverse :=
        List.mem_reverse.mpr (ExtTreeMap.mem_toList_iff_getElem?_eq_some.mpr held)
      exact absurd (List.find?_eq_none.mp found _ member) (by simp)

end RuleDepot.Table

namespace RuleDepot.Roster

open Std

variable {κ : Type} [Ord κ] [TransOrd κ] [LawfulEqOrd κ] [DecidableEq κ] {s : Roster κ} {l : List κ}

omit [DecidableEq κ] in
/-- What is named by a list is put into a set. -/
theorem mem_foldl_insert {α : Type} (items : List α) (name : α → κ) {k : κ} :
    k ∈ items.foldl (fun s x => s.insert (name x)) s ↔ k ∈ s ∨ ∃ x ∈ items, name x = k := by
  induction items generalizing s with
  | nil => simp
  | cons x rest ih => simp [ih, ExtTreeSet.mem_insert, or_assoc, or_comm (b := k ∈ s)]

/-- A set has as many members as a list of them when nothing in it is counted twice. -/
theorem size_eq (members : ∀ k, k ∈ s ↔ k ∈ l) : s.size = l.dedup.length := by
  rw [← ExtTreeSet.length_toList]
  have distinct : s.toList.Nodup := ExtTreeSet.distinct_toList.imp fun differ same =>
    differ (Std.compare_eq_iff_eq.mpr same)
  refine ((List.perm_ext_iff_of_nodup distinct l.nodup_dedup).mpr fun k => ?_).length_eq
  rw [ExtTreeSet.mem_toList, members, List.mem_dedup]

end RuleDepot.Roster
