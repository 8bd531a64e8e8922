import RuleDepot.Rule.Basic
/-!
The text of a rule file: a header line, then each rule behind an empty line, with one attribute on
a line.  Texts are quoted; inside quotes a quote, a backslash and a line feed are written with a
backslash, so a text ends at its first bare quote.
-/

namespace RuleDepot

/-- The first line of every rule file. -/
def ruleFileHeader : String :=
  "# @generated by buckforge. Do not edit.\n"

/-- One character inside quotes. -/
def quotedRuleChar (c : Char) : List Char :=
  if c = '"' then ['\\', '"']
  else if c = '\\' then ['\\', '\\']
  else if c = '\n' then ['\\', 'n']
  else [c]

/-- A text in quotes. -/
def quotedRuleText (s : String) : List Char :=
  '"' :: (s.toList.flatMap quotedRuleChar ++ ['"'])

/-- A list of texts in brackets. -/
def listedRuleTexts (items : List String) : List Char :=
  '[' :: ([',', ' '].intercalate (items.map quotedRuleText) ++ [']'])

namespace AttrValue

/-- The literal of a value. -/
def literal : AttrValue → List Char
  | text s => quotedRuleText s
  | list items => listedRuleTexts items
  | flag true => "True".toList
  | flag false => "False".toList

end AttrValue

namespace Rule

/-- One line of a rule: an attribute and its literal. -/
def line (name : String) (literal : List Char) : List Char :=
  "\n    ".toList ++ name.toList ++ " = ".toList ++ literal ++ [',']

/-- The text of a rule. -/
def print (r : Rule) : List Char :=
  '\n' :: r.ruleType.toList ++ ['('] ++ line "name" (quotedRuleText r.name) ++
    r.attrs.toList.flatMap (fun (name, value) => line name value.literal) ++
    line "visibility" (listedRuleTexts r.visibility) ++ "\n)\n".toList

end Rule

/-- The text of a rule file. -/
def printRules (rules : List Rule) : String :=
  String.ofList (ruleFileHeader.toList ++ rules.flatMap Rule.print)

end RuleDepot
