import RuleDepot.Text.Basic
/-!
Numbers written with a fixed count of base-sixteen digits.  `length_fixedHex` gives the count.
-/

namespace RuleDepot.Digest

/-- The lowest `width` base-sixteen digits of a number, most significant first. -/
def fixedHex : Nat → Nat → List Char
  | 0, _ => []
  | width + 1, n => fixedHex width (n / 16) ++ [Text.hexDigit (n % 16)]

@[simp] theorem length_fixedHex (width n : Nat) : (fixedHex width n).length = width := by
  induction width generalizing n with
  | zero => rfl
  | succ width ih => simp [fixedHex, ih]

/-- The lower-case base-sixteen digits. -/
def isLowerHex (c : Char) : Bool :=
  Text.isDigit c || ('a' ≤ c && c ≤ 'f')

/-- The base-sixteen digits of either case. -/
def isHex (c : Char) : Bool :=
  isLowerHex c || ('A' ≤ c && c ≤ 'F')

theorem isLowerHex_hexDigit {n : Nat} (h : n < 16) : isLowerHex (Text.hexDigit n) = true := by
  have all : ∀ k : Fin 16, isLowerHex (Text.hexDigit k.val) = true := by decide
  exact all ⟨n, h⟩

theorem isLowerHex_of_mem_fixedHex {width n : Nat} {c : Char} (h : c ∈ fixedHex width n) :
    isLowerHex c = true := by
  induction width generalizing n with
  | zero => simp [fixedHex] at h
  | succ width ih =>
    rcases List.mem_append.1 h with h | h
    · exact ih h
    · obtain rfl := List.mem_singleton.1 h
      exact isLowerHex_hexDigit (Nat.mod_lt _ (by decide))

end RuleDepot.Digest
