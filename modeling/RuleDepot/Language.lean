/-!
The languages that need a runtime library next to the generated rules.
-/

namespace RuleDepot

/-- A language with a runtime of its own. -/
inductive Language where
  | kotlin
  | scala
  | groovy
  deriving DecidableEq, Repr

namespace Language

def all : List Language := [kotlin, scala, groovy]

def text : Language → String
  | kotlin => "kotlin"
  | scala => "scala"
  | groovy => "groovy"

def named? : String → Option Language
  | "kotlin" => some kotlin
  | "scala" => some scala
  | "groovy" => some groovy
  | _ => none

/-- The place of a language in lists. -/
def rank : Language → Nat
  | kotlin => 0
  | scala => 1
  | groovy => 2

instance : Ord Language := ⟨compareOn rank⟩

instance : Std.TransOrd Language :=
  inferInstanceAs (Std.TransCmp (compareOn rank))

instance : Std.LawfulEqOrd Language where
  eq_of_compare {a b} h := by
    cases a <;> cases b <;> first | rfl | exact absurd h (by decide)

end Language

end RuleDepot
