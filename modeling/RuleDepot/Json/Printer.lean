import RuleDepot.Text.Basic
/-!
Writing JSON.  Texts are quoted with the shortest escapes; lists and records stand on lines of
their own, two blanks deeper than what they are in, unless they are empty.
-/

namespace RuleDepot.Json

/-- One character between quotes. -/
def quotedChar (c : Char) : List Char :=
  if c = '"' then ['\\', '"']
  else if c = '\\' then ['\\', '\\']
  else if c = '\x08' then ['\\', 'b']
  else if c = '\x0c' then ['\\', 'f']
  else if c = '\n' then ['\\', 'n']
  else if c = '\r' then ['\\', 'r']
  else if c = '\t' then ['\\', 't']
  else if c.toNat < 0x20 then
    ['\\', 'u', '0', '0', Text.hexDigit (c.toNat / 16), Text.hexDigit (c.toNat % 16)]
  else [c]

/-- A text between quotes. -/
def quoted (s : String) : List Char :=
  '"' :: (s.toList.flatMap quotedChar ++ ['"'])

/-- A number. -/
def decimal (n : Nat) : List Char :=
  (toString n).toList

/-- A member of a record. -/
def memberText (key : String) (value : List Char) : List Char :=
  quoted key ++ [':', ' '] ++ value

/-- Parts between brackets, each on a line of its own. -/
def block (opening closing : Char) (depth : Nat) (parts : List (List Char)) : List Char :=
  if parts.isEmpty then [opening, closing]
  else
    let indent := List.replicate (2 * depth) ' '
    opening :: ([',']).intercalate (parts.map fun part => '\n' :: ' ' :: ' ' :: indent ++ part) ++
      '\n' :: indent ++ [closing]

/-- A list. -/
def listText (depth : Nat) (items : List (List Char)) : List Char :=
  block '[' ']' depth items

/-- A record. -/
def recordText (depth : Nat) (members : List (String × List Char)) : List Char :=
  block '\x7b' '\x7d' depth (members.map fun (key, value) => memberText key value)

end RuleDepot.Json
