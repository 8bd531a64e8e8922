import RuleDepot.Toml.Scalar
/-!
TOML documents: lines that add a value under a key, and headers that say to which table the lines
behind them belong.
-/

namespace RuleDepot.Toml

open Reader

/-- How many brackets and braces may be open at once; also, one more than the number of tables that
a key may lead through. -/
def maxDepth : Nat := 80

/-- Characters of keys without quotes. -/
def isKeyChar (c : Char) : Bool :=
  Text.isDigit c || ('a' ≤ c && c ≤ 'z') || ('A' ≤ c && c ≤ 'Z') || c == '_' || c == '-'

/-- Reads one part of a key. -/
def keyPart : Reader String := do
  match (← peek?) with
  | some '"' => if ← sees "\"\"\"" then fail else string
  | some '\'' => if ← sees "'''" then fail else string
  | _ =>
    let start ← get
    let chars ← takeRun isWordChar
    if chars.isEmpty then fail
    if !chars.all isKeyChar then note (.unclear start)
    return String.ofList chars

/-- Reads the parts of a key behind dots. -/
def moreKeyParts : Nat → Reader (List String)
  | 0 => return []
  | fuel + 1 => do
    blanks
    if ← sees "." then
      drop 1
      blanks
      let part ← keyPart
      return part :: (← moreKeyParts fuel)
    else return []

/-- Reads a key: the parts that lead to its table, and its last part. -/
def key : Reader (List String × String) := do
  blanks
  let first ← keyPart
  let more ← moreKeyParts (← room)
  let parts := first :: more
  return (parts.dropLast, parts.getLast?.getD first)

/-- The members after a change under a path of keys, which may be refused. -/
def changed (before : Members) (path : List String) (after : Option Members) : Reader Members := do
  if maxDepth ≤ path.length then
    note .tooDeep
    return before
  else
    match after with
    | some members => return members
    | none =>
      noteHere
      return before

mutual

/-- Reads a value at a depth. -/
def value (depth : Nat) : Nat → Reader Value
  | 0 => fail
  | fuel + 1 => do
    match (← peek?) with
    | some '[' =>
      if depth = maxDepth then fail
      drop 1
      return .array false (← items (depth + 1) fuel)
    | some '\x7b' =>
      if depth = maxDepth then fail
      drop 1
      return .table .braces (← bracedMembers (depth + 1) fuel [])
    | _ => scalar

/-- Reads the items of an array and its end. -/
def items (depth : Nat) : Nat → Reader (List Value)
  | 0 => fail
  | fuel + 1 => do
    gaps
    if ← sees "]" then
      drop 1
      return []
    else
      let item ← value depth fuel
      gaps
      if ← sees "," then
        drop 1
        return item :: (← items depth fuel)
      else
        expect "]"
        return [item]

/-- Reads the members of a table in braces and its end. -/
def bracedMembers (depth : Nat) : Nat → Members → Reader Members
  | 0, _ => fail
  | fuel + 1, before => do
    gaps
    if ← sees "\x7d" then
      drop 1
      return before
    else
      let (path, name) ← key
      gaps
      expect "="
      gaps
      let v ← value depth fuel
      let members ← changed before path (Members.addUnder before .braces path name v)
      gaps
      if ← sees "," then
        drop 1
        bracedMembers depth fuel members
      else
        expect "\x7d"
        return members

end

/-- What was read of a document: its members, and the header that is in force. -/
structure Progress where
  members : Members
  header : List String

/-- Reads a header, between single or double brackets. -/
def header (p : Progress) : Reader Progress := do
  drop 1
  let several ← sees "["
  if several then drop 1
  let (path, name) ← key
  blanks
  expect (if several then "]]" else "]")
  let members ← changed p.members path
    (if several then Members.openElement p.members path name else Members.openTable p.members path name)
  return ⟨members, path ++ [name]⟩

/-- Reads a key and its value. -/
def keyValue (p : Progress) : Reader Progress := do
  let (path, name) ← key
  blanks
  expect "="
  blanks
  let v ← value 0 (← room)
  let members ← changed p.members path (Members.insertBelow p.members p.header path name v)
  return { p with members }

/-- Reads the lines of a document. -/
def lines : Nat → Progress → Reader Members
  | 0, p => do
    if (← get).isEmpty then return p.members else fail
  | fuel + 1, p => do
    blanks
    let p ← match (← peek?) with
      | none => pure p
      | some '\x23' => pure p
      | some '\n' => pure p
      | some '\r' => pure p
      | some '[' => header p
      | some _ => keyValue p
    blanks
    comment
    if (← get).isEmpty then return p.members
    else if ← newline? then lines fuel p
    else fail

/-- Why a text is no document. -/
inductive Refusal where
  /-- A line that cannot be read. -/
  | line (number : Nat)
  /-- A key that leads through too many tables. -/
  | tooDeep
  deriving DecidableEq, Repr

namespace Refusal

def message : Refusal → String
  | line number => s!"TOML parse error in line {number}"
  | tooDeep => "recursion limit\n"

/-- The refusal of a whole text for the line in which what is left of it begins. -/
def inLine (whole rest : List Char) : Refusal :=
  .line ((whole.take (whole.length - rest.length)).count '\n' + 1)

end Refusal

/-- Reads a document.  A byte order mark at the front is passed over. -/
def parse (s : String) : Except Refusal Members :=
  let whole := s.toList
  let body := if whole.head? == some '\ufeff' then whole.tail else whole
  match (((lines body.length ⟨[], []⟩).run body.length).run body).run none with
  | .error rest => .error (.inLine whole rest)
  | .ok (_, some (.unclear rest)) => .error (.inLine whole rest)
  | .ok (_, some .tooDeep) => .error .tooDeep
  | .ok ((members, _), none) => .ok members

end RuleDepot.Toml
