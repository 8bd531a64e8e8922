import RuleDepot.Table
/-!
Build rules: a rule type, a name, attributes in name order and a visibility.
-/

namespace RuleDepot

/-- The value of an attribute. -/
inductive AttrValue where
  | text (s : String)
  | list (items : List String)
  | flag (b : Bool)
  deriving DecidableEq, Repr

/-- One rule. -/
structure Rule where
  ruleType : String
  name : String
  attrs : Table String AttrValue
  visibility : List String

namespace Rule

/-- A rule without attributes that everyone may use. -/
def of (ruleType name : String) : Rule :=
  ⟨ruleType, name, ∅, ["PUBLIC"]⟩

/-- The rule with one more attribute. -/
def withAttr (r : Rule) (name : String) (value : AttrValue) : Rule :=
  { r with attrs := r.attrs.insert name value }

def withText (r : Rule) (name value : String) : Rule :=
  r.withAttr name (.text value)

def withList (r : Rule) (name : String) (items : List String) : Rule :=
  r.withAttr name (.list items)

def withFlag (r : Rule) (name : String) (value : Bool) : Rule :=
  r.withAttr name (.flag value)

/-- The rule as other rules of its file refer to it. -/
def localTarget (r : Rule) : String :=
  s!":{r.name}"

end Rule

end RuleDepot
