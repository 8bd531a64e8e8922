import RuleDepot.Text.Basic
/-!
Sizes for people: whole bytes, or one decimal of the greatest unit that the size reaches.  Halves
of the last digit go to the even neighbour.
-/

namespace RuleDepot.Command

/-- The units behind bytes, each 1024 times the one before it. -/
def units : List String := ["KB", "MB", "GB"]

/-- A quotient rounded to the nearest whole number; a half goes to the even one. -/
def roundedQuotient (n d : Nat) : Nat :=
  let q := n / d
  let twice := 2 * (n % d)
  if twice < d || (twice = d && q % 2 = 0) then q else q + 1

/-- The exponent of the greatest unit that a size reaches. -/
def unitOf (bytes : Nat) : Nat :=
  ((List.range units.length).filter fun n => Nat.pow 1024 (n + 1) ≤ bytes).length

/-- A size in words. -/
def sizeText (bytes : Nat) : String :=
  let unit := unitOf bytes
  match unit with
  | 0 => s!"{bytes} B"
  | n + 1 =>
    let tenths := roundedQuotient (10 * bytes) (Nat.pow 1024 unit)
    let unitName := units[n]?.getD ""
    s!"{tenths / 10}.{tenths % 10} {unitName}"

end RuleDepot.Command
