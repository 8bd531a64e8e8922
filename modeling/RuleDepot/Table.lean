import Std.Data.ExtTreeMap
import Std.Data.ExtTreeSet
/-!
Tables and sets in key order.  Two tables with the same look-ups are equal, and listing one gives
its keys in ascending order, so whatever is printed from a table does not depend on the order in
which it was filled.
-/

namespace RuleDepot

/-- A finite map that lists its entries in key order. -/
abbrev Table (κ ν : Type) [Ord κ] : Type :=
  Std.ExtTreeMap κ ν compare

/-- A finite set that lists its members in order. -/
abbrev Roster (κ : Type) [Ord κ] : Type :=
  Std.ExtTreeSet κ compare

end RuleDepot
