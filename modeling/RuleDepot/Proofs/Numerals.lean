import Mathlib.Data.List.Induction
import RuleDepot.Text.Basic
/-!
Numbers in decimal.  The digits of a number are digits, have its value, and begin with a zero only
if they are that zero, and they are the only such ones; filling up with zeros on the left changes
neither of the first two.
-/

namespace RuleDepot.Text

variable {n width : Nat} {c : Char}

private theorem isDigit_eq (c : Char) : isDigit c = c.isDigit := by
  simp [isDigit, Char.isDigit, Char.le_def]

theorem toList_toString (n : Nat) : (toString n).toList = Nat.toDigits 10 n := by
  rw [Nat.toString_eq_ofList_toDigits, String.toList_ofList]

theorem isDigit_of_mem_toDigits (member : c ∈ Nat.toDigits 10 n) : isDigit c = true := by
  rw [isDigit_eq]
  exact Nat.isDigit_of_mem_toDigits (by decide) (by decide) member

theorem decimalValue_toDigits (n : Nat) : decimalValue (Nat.toDigits 10 n) = n :=
  Nat.ofDigitChars_ten_toDigits

theorem toString_inj {m : Nat} : toString m = toString n ↔ m = n := by
  constructor
  · intro same
    have digits := congrArg (fun s : String => decimalValue s.toList) same
    simpa only [toList_toString, decimalValue_toDigits] using digits
  · rintro rfl
    rfl

/-- Only the digits of zero begin with a zero. -/
theorem head?_toDigits (n : Nat) :
    (Nat.toDigits 10 n).length = 1 ∨ (Nat.toDigits 10 n).head? ≠ some '0' := by
  induction n using Nat.strongRecOn with
  | ind n ih =>
    rw [Nat.toDigits_eq_if (by decide)]
    split
    · exact Or.inl rfl
    · rename_i large
      refine Or.inr ?_
      have front : (Nat.toDigits 10 (n / 10) ++ [(n % 10).digitChar]).head? =
          (Nat.toDigits 10 (n / 10)).head? := by
        rw [List.head?_append, Option.or_of_isSome (List.isSome_head?.mpr Nat.toDigits_ne_nil)]
      rw [front]
      rcases ih (n / 10) (by omega) with single | other
      · -- The front is one digit, and not that of zero.
        rw [Nat.toDigits_eq_if (by decide)] at single ⊢
        split
        · simp only [List.head?_cons, ne_eq, Option.some.injEq, Nat.digitChar_eq_zero]
          omega
        · rename_i larger
          rw [if_neg larger] at single
          simp at single
      · exact other

private theorem digitChar_digitValue (digit : isDigit c = true) :
    digitValue c < 10 ∧ (digitValue c).digitChar = c := by
  have chars : ∀ n < 10, Nat.digitChar n = Char.ofNat ('0'.toNat + n) := by decide
  have bounds : '0'.toNat ≤ c.toNat ∧ c.toNat ≤ '9'.toNat := by
    simpa [isDigit, Char.le_def, UInt32.le_iff_toNat_le] using digit
  have nine : '9'.toNat = '0'.toNat + 9 := rfl
  have small : digitValue c < 10 := by
    unfold digitValue
    omega
  refine ⟨small, ?_⟩
  have back : '0'.toNat + digitValue c = c.toNat := by
    unfold digitValue
    omega
  rw [chars _ small, back, Char.ofNat_toNat]

/-- Digits that do not begin with a zero, unless it is all there is, are those of their value. -/
theorem toDigits_decimalValue {digits : List Char} (some_ : digits ≠ [])
    (digit : ∀ c ∈ digits, isDigit c = true)
    (canonical : digits.length = 1 ∨ digits.head? ≠ some '0') :
    Nat.toDigits 10 (decimalValue digits) = digits := by
  induction digits using List.reverseRecOn with
  | nil => exact absurd rfl some_
  | append_singleton front c ih =>
    obtain ⟨small, back⟩ := digitChar_digitValue (digit c (by simp))
    have value : decimalValue (front ++ [c]) = 10 * decimalValue front + digitValue c := by
      simp [decimalValue, List.foldl_append]
    have last : Nat.toDigits 10 (digitValue c) = [c] := by
      rw [Nat.toDigits_of_lt_base small, back]
    by_cases single : front = []
    · have zero : decimalValue [] = 0 := rfl
      rw [value, single, zero, Nat.mul_zero, Nat.zero_add, last, List.nil_append]
    · have head : front.head? ≠ some '0' := by
        rcases canonical with one | other
        · exact absurd (by simpa using one) single
        · rwa [List.head?_append, Option.or_of_isSome (List.isSome_head?.mpr single)] at other
      have frontDigits : Nat.toDigits 10 (decimalValue front) = front :=
        ih single (fun c member => digit c (List.mem_append_left _ member)) (Or.inr head)
      have positive : 0 < decimalValue front := by
        apply Nat.pos_of_ne_zero
        intro zero
        rw [zero, Nat.toDigits_zero] at frontDigits
        exact head (frontDigits ▸ rfl)
      rw [value, ← Nat.toDigits_append_toDigits (by decide) positive small, frontDigits, last]

/-- The digits with zeros in front of them. -/
def padding (width n : Nat) : List Char :=
  List.replicate (width - (Nat.toDigits 10 n).length) '0' ++ Nat.toDigits 10 n

theorem toList_zeroPadded (width n : Nat) : (zeroPadded width n).toList = padding width n := by
  simp only [zeroPadded, padding, String.toList_append, String.toList_ofList,
    Nat.toString_eq_ofList_toDigits, String.length_ofList]

theorem isDigit_of_mem_padding (member : c ∈ padding width n) : isDigit c = true := by
  rcases List.mem_append.mp member with zeros | own
  · rw [List.eq_of_mem_replicate zeros]
    decide
  · exact isDigit_of_mem_toDigits own

theorem padding_ne_nil (width n : Nat) : padding width n ≠ [] := by
  simp [padding]

private theorem decimalValue_replicate_append (zeros : Nat) (digits : List Char) :
    decimalValue (List.replicate zeros '0' ++ digits) = decimalValue digits := by
  induction zeros with
  | zero => rfl
  | succ zeros ih => exact ih

theorem decimalValue_padding (width n : Nat) : decimalValue (padding width n) = n := by
  rw [padding, decimalValue_replicate_append, decimalValue_toDigits]

/-- A number that needs no more digits than there is room for fills the room. -/
theorem length_padding (fits : (Nat.toDigits 10 n).length ≤ width) :
    (padding width n).length = width := by
  simp only [padding, List.length_append, List.length_replicate]
  omega

end RuleDepot.Text
