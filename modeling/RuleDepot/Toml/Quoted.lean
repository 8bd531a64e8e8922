import RuleDepot.Toml.Reader
/-!
TOML strings in their four forms: in double quotes, where a backslash escapes, or in single ones, on
one line or on several.
-/

namespace RuleDepot.Toml

open Reader

/-- Reads a base-sixteen number of a fixed width. -/
def codePoint (width : Nat) : Reader Char := do
  let digits := (← get).take width
  let value (c : Char) : Option Nat :=
    if Text.isDigit c then some (c.toNat - 48)
    else if 'a' ≤ c && c ≤ 'f' then some (c.toNat - 87)
    else if 'A' ≤ c && c ≤ 'F' then some (c.toNat - 55)
    else none
  let n? := (digits.mapM value).map fun values => values.foldl (16 * · + ·) 0
  match n? with
  | some n =>
    if digits.length = width && n.isValidChar then
      drop width
      return Char.ofNat n
    else
      noteHere
      return '\ufffd'
  | none =>
    noteHere
    return '\ufffd'

/-- Reads what stands behind a backslash. -/
def escaped : Reader Char := do
  match (← peek?) with
  | some 'b' => drop 1; return '\x08'
  | some 't' => drop 1; return '\t'
  | some 'n' => drop 1; return '\n'
  | some 'f' => drop 1; return '\x0c'
  | some 'r' => drop 1; return '\r'
  | some '"' => drop 1; return '"'
  | some '\\' => drop 1; return '\\'
  | some 'e' => drop 1; return '\x1b'
  | some 'x' => drop 1; codePoint 2
  | some 'u' => drop 1; codePoint 4
  | some 'U' => drop 1; codePoint 8
  | _ => noteHere; return '\ufffd'

/-- Gives what was read of a string, last character first, that does not end where it should. -/
def unclosed (read : List Char) : Reader String := do
  noteHere
  return String.ofList read.reverse

/-- The rest of a string in double quotes on one line. -/
def basicRest : Nat → List Char → Reader String
  | 0, read => unclosed read
  | fuel + 1, read => do
    match (← peek?) with
    | none => unclosed read
    | some '\n' => unclosed read
    | some '"' =>
      drop 1
      return String.ofList read.reverse
    | some '\\' =>
      drop 1
      basicRest fuel ((← escaped) :: read)
    | some c =>
      if isForbidden c then noteHere
      drop 1
      basicRest fuel (c :: read)

/-- The rest of a string in single quotes on one line. -/
def literalRest : Reader String := do
  let chars ← takeRun fun c => c != '\'' && c != '\n'
  if chars.any isForbidden then noteHere
  if ← sees "'" then
    drop 1
    return String.ofList chars
  else unclosed chars.reverse

/-- Takes the quotes that close a string of several lines; up to two more of them belong to the
string. -/
def closing (quote : Char) : Reader (List Char) := do
  let run := ((← get).takeWhile (· == quote)).length
  let inside := min (run - 3) 2
  drop (inside + 3)
  return List.replicate inside quote

/-- Whether a backslash stands at the end of its line. -/
def endsLine (s : List Char) : Bool :=
  match s.dropWhile isLineBlank with
  | '\n' :: _ => true
  | '\r' :: '\n' :: _ => true
  | _ => false

/-- The text behind all blanks and line ends at its front. -/
def behindLines : List Char → List Char
  | '\n' :: rest => behindLines rest
  | '\r' :: '\n' :: rest => behindLines rest
  | c :: rest => if isLineBlank c then behindLines rest else c :: rest
  | [] => []

/-- The rest of a string of several lines.  In double quotes a backslash escapes, and at the end of
a line it takes away all blanks up to the next character. -/
def linesRest (quote : Char) (escapes : Bool) : Nat → List Char → Reader String
  | 0, read => unclosed read
  | fuel + 1, read => do
    if ← sees (String.ofList [quote, quote, quote]) then
      let inside ← closing quote
      return String.ofList (read.reverse ++ inside)
    else if ← sees "\r\n" then
      drop 2
      linesRest quote escapes fuel ('\n' :: '\r' :: read)
    else
      match (← peek?) with
      | none => unclosed read
      | some c =>
        if escapes && c = '\\' then
          drop 1
          if endsLine (← get) then
            modify behindLines
            linesRest quote escapes fuel read
          else linesRest quote escapes fuel ((← escaped) :: read)
        else
          if c != '\n' && isForbidden c then noteHere
          drop 1
          linesRest quote escapes fuel (c :: read)

/-- Reads a string in any of its four forms. -/
def string : Reader String := do
  let fuel := (← room) + 1
  if ← sees "\"\"\"" then
    drop 3
    let _ ← newline?
    linesRest '"' true fuel []
  else if ← sees "'''" then
    drop 3
    let _ ← newline?
    linesRest '\'' false fuel []
  else if ← sees "\"" then
    drop 1
    basicRest fuel []
  else
    expect "'"
    literalRest

end RuleDepot.Toml
