import RuleDepot.Text.Basic
/-!
Texts cut at separators.  Where a text is cut is settled by what stands between the cuts, so texts
that are put together with separators between them can be taken apart again.
-/

namespace RuleDepot.Text

variable {sep : Char → Bool} {c : Char} {s front back : List Char}

/-- Cutting two texts with a separator between them cuts both. -/
theorem splitChars_append (sep : Char → Bool) {c : Char} (separates : sep c = true)
    (front back : List Char) :
    splitChars sep (front ++ c :: back) = splitChars sep front ++ splitChars sep back := by
  induction front with
  | nil => simp [splitChars, separates]
  | cons d front ih =>
    simp only [List.cons_append, splitChars]
    split
    · simp [ih]
    · rw [ih]
      cases cut : splitChars sep front with
      | nil => exact absurd cut (splitChars_ne_nil sep front)
      | cons piece pieces => simp

/-- A text without separators is one piece. -/
theorem splitChars_of_unseparated {s : List Char} (unseparated : ∀ c ∈ s, sep c = false) :
    splitChars sep s = [s] := by
  induction s with
  | nil => rfl
  | cons c rest ih =>
    have here : sep c = false := unseparated c List.mem_cons_self
    have there := ih fun d member => unseparated d (List.mem_cons_of_mem _ member)
    simp [splitChars, here, there]

/-- What is joined is the first part and the others, each with the separator in front of it. -/
theorem intercalate_cons {α : Type} (sep part : List α) (parts : List (List α)) :
    sep.intercalate (part :: parts) = part ++ parts.flatMap (sep ++ ·) := by
  induction parts generalizing part with
  | nil => simp
  | cons other parts ih => simp [List.intercalate_cons_cons, ih]

/-- What is joined from pieces with a character between them is cut into these pieces. -/
theorem splitChars_intercalate {pieces : List (List Char)} (filled : pieces ≠ [])
    (solid : ∀ piece ∈ pieces, c ∉ piece) :
    splitChars (· == c) ([c].intercalate pieces) = pieces := by
  induction pieces with
  | nil => exact absurd rfl filled
  | cons first rest ih =>
    have plain : splitChars (· == c) first = [first] := splitChars_of_unseparated fun d member => by
      have other : d ≠ c := fun same => solid first List.mem_cons_self (same ▸ member)
      simpa using other
    cases rest with
    | nil => simpa using plain
    | cons second rest =>
      rw [List.intercalate_cons_cons, List.append_assoc, List.singleton_append,
        splitChars_append _ (by simp), plain, ih (by simp) fun piece member =>
          solid piece (List.mem_cons_of_mem _ member)]
      rfl

/-- What stands in a piece stands in the text. -/
theorem mem_of_mem_splitChars {d : Char} {piece : List Char}
    (cut : piece ∈ splitChars (· == c) s) (member : d ∈ piece) : d ∈ s := by
  rw [← join_splitChars c s]
  generalize splitChars (· == c) s = pieces at cut
  induction pieces with
  | nil => cases cut
  | cons first rest ih =>
    cases rest with
    | nil =>
      obtain rfl : piece = first := by simpa using cut
      simpa using member
    | cons second rest =>
      rw [List.intercalate_cons_cons]
      rcases List.mem_cons.mp cut with rfl | later
      · exact List.mem_append_left _ (List.mem_append_left _ member)
      · exact List.mem_append_right _ (ih later)

private theorem cutLast_eq_none_iff : cutLast c s = none ↔ c ∉ s := by
  induction s with
  | nil => simp [cutLast]
  | cons d rest ih =>
    cases later : cutLast c rest with
    | some parts =>
      have inside : c ∈ rest := by simpa [later] using ih
      simp [cutLast, later, inside]
    | none =>
      have outside : c ∉ rest := ih.mp later
      simp [cutLast, later, outside, eq_comm]

/-- The cut is at the last occurrence. -/
theorem cutLast_append (absent : c ∉ back) : cutLast c (front ++ c :: back) = some (front, back) := by
  induction front with
  | nil => simp [cutLast, cutLast_eq_none_iff.mpr absent]
  | cons d front ih => simp [cutLast, ih]

theorem eq_of_cutLast (cut : cutLast c s = some (front, back)) :
    s = front ++ c :: back ∧ c ∉ back := by
  induction s generalizing front with
  | nil => simp [cutLast] at cut
  | cons d rest ih =>
    simp only [cutLast] at cut
    cases later : cutLast c rest with
    | some parts =>
      rw [later] at cut
      cases cut
      obtain ⟨spelled, absent⟩ := ih later
      exact ⟨by simp [← spelled], absent⟩
    | none =>
      rw [later] at cut
      simp only [Option.ite_none_right_eq_some, Option.some.injEq, Prod.mk.injEq] at cut
      obtain ⟨rfl, rfl, rfl⟩ := cut
      exact ⟨rfl, cutLast_eq_none_iff.mp later⟩

/-- The part behind the last occurrence of a character determines the part in front of it. -/
theorem append_cons_inj {front' back' : List Char} (absent : c ∉ back) (absent' : c ∉ back')
    (same : front ++ c :: back = front' ++ c :: back') : front = front' ∧ back = back' := by
  have cut : cutLast c (front ++ c :: back) = some (front, back) := cutLast_append absent
  rw [same, cutLast_append absent'] at cut
  cases cut
  exact ⟨rfl, rfl⟩

/-- The part in front of the first occurrence of a character determines the part behind it. -/
theorem cons_append_inj {front' back' : List Char} (absent : c ∉ front) (absent' : c ∉ front')
    (same : front ++ c :: back = front' ++ c :: back') : front = front' ∧ back = back' := by
  have turned : back.reverse ++ c :: front.reverse = back'.reverse ++ c :: front'.reverse := by
    simpa using congrArg List.reverse same
  obtain ⟨backs, fronts⟩ := append_cons_inj (by simpa using absent) (by simpa using absent') turned
  exact ⟨List.reverse_inj.mp fronts, List.reverse_inj.mp backs⟩

end RuleDepot.Text
