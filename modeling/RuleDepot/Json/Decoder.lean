import RuleDepot.Json.Token
/-!
Reading typed values from JSON tokens.  A decoder takes tokens from the front and gives a value and
the rest, or fails where it is; so the first thing in the text that does not fit is what is
reported, whether it is no JSON at all or no value of the type.
-/

namespace RuleDepot.Json

/-- Why and where reading failed. -/
structure Fault where
  what : String
  mark : Mark
  deriving DecidableEq, Repr

namespace Fault

def message (f : Fault) : String :=
  s!"{f.what} at line {f.mark.line} column {f.mark.column}"

end Fault

/-- A reader of one value. -/
abbrev Decoder : Type → Type :=
  StateT (List Token) (Except Fault)

namespace Decoder

variable {α κ σ : Type}

/-- The next token, which stays. -/
def peek : Decoder Token := fun tokens =>
  match tokens with
  | token :: _ => .ok (token, tokens)
  | [] => .error ⟨"unexpected end", default⟩

/-- Drops the next token. -/
def advance : Decoder Unit := fun tokens =>
  .ok ((), tokens.tail)

/-- Fails at the next token. -/
def fail (what : String) : Decoder α := fun tokens =>
  .error ⟨what, (tokens.head?.map Token.mark).getD default⟩

/-- Takes a token of one form. -/
def expect (kind : TokenKind) (what : String) : Decoder Unit := do
  if (← peek).kind = kind then advance
  else fail what

/-- Reads a text. -/
def text : Decoder String := do
  match (← peek).kind with
  | .text raw =>
    match (Text.characters? raw).bind unescape with
    | some chars => advance; return String.ofList chars
    | none => fail "a part of a character in a string"
  | _ => fail "expected a string"

/-- Reads a truth value. -/
def bool : Decoder Bool := do
  match (← peek).kind with
  | .bool b => advance; return b
  | _ => fail "expected a boolean"

/-- Reads a number that fits a machine word: digits only. -/
def word : Decoder Nat := do
  match (← peek).kind with
  | .number digits =>
    if digits.all Text.isDigit && Text.decimalValue digits < Text.wordLimit then
      advance
      return Text.decimalValue digits
    else fail "expected a number that fits a machine word"
  | _ => fail "expected a number"

/-- Reads a value or `null`. -/
def optional (item : Decoder α) : Decoder (Option α) := do
  if (← peek).kind = .null then
    advance
    return none
  else
    return some (← item)

/-- Reads a text of some notation. -/
def parsed (parse : String → Except String α) : Decoder α := do
  let start ← get
  match parse (← text) with
  | .ok a => return a
  | .error what => set start; fail what

/-- The elements of an array from the first on, or from behind an element. -/
def elements (item : Decoder α) : Nat → Bool → Decoder (List α)
  | 0, _ => fail "expected an element"
  | fuel + 1, first => do
    if (← peek).kind = .closeBracket then
      advance
      return []
    else
      if !first then expect .comma "expected a comma"
      let a ← item
      return a :: (← elements item fuel false)

/-- Reads an array. -/
def list (item : Decoder α) : Decoder (List α) := do
  expect .openBracket "expected an array"
  elements item (← get).length true

/-- Takes the colon behind a key. -/
def colon : Decoder Unit :=
  expect .colon "expected a colon"

/-- The members of an object from the first on, or from behind a member; each one changes what was
read so far, and takes the colon itself. -/
def members (member : String → σ → Decoder σ) : Nat → Bool → σ → Decoder σ
  | 0, _, _ => fail "expected a member"
  | fuel + 1, first, s => do
    if (← peek).kind = .closeBrace then
      advance
      return s
    else
      if !first then expect .comma "expected a comma"
      let key ← text
      members member fuel false (← member key s)

/-- Reads an object. -/
def object (member : String → σ → Decoder σ) (start : σ) : Decoder σ := do
  expect .openBrace "expected an object"
  members member (← get).length true start

/-- What a value that is passed over stands in. -/
inductive Frame where
  | array
  | object
  deriving DecidableEq

/-- What comes next in a value that is passed over. -/
inductive Awaited where
  | value
  /-- A value, or the end of the array that was opened. -/
  | valueOrEnd
  | key
  /-- A key, or the end of the object that was opened. -/
  | keyOrEnd
  | colon
  /-- A comma, or the end of what is open. -/
  | separator
  deriving DecidableEq

/-- What one token does to a value that is passed over: the open frames behind it and what comes
next. -/
def skipToken (awaited : Awaited) (frames : List Frame) (kind : TokenKind) :
    Option (Awaited × List Frame) :=
  match awaited, kind, frames with
  | .valueOrEnd, .closeBracket, _ :: outer => some (.separator, outer)
  | .keyOrEnd, .closeBrace, _ :: outer => some (.separator, outer)
  | .keyOrEnd, .text _, _ => some (.colon, frames)
  | .key, .text _, _ => some (.colon, frames)
  | .colon, .colon, _ => some (.value, frames)
  | .separator, .comma, .array :: _ => some (.value, frames)
  | .separator, .comma, .object :: _ => some (.key, frames)
  | .separator, .closeBracket, .array :: outer => some (.separator, outer)
  | .separator, .closeBrace, .object :: outer => some (.separator, outer)
  | .separator, _, _ => none
  | .key, _, _ => none
  | .keyOrEnd, _, _ => none
  | .colon, _, _ => none
  | _, .openBrace, _ => some (.keyOrEnd, .object :: frames)
  | _, .openBracket, _ => some (.valueOrEnd, .array :: frames)
  | _, .text _, _ => some (.separator, frames)
  | _, .number _, _ => some (.separator, frames)
  | _, .bool _, _ => some (.separator, frames)
  | _, .null, _ => some (.separator, frames)
  | _, _, _ => none

/-- Passes over tokens until nothing is open. -/
def skipFrom (awaited : Awaited) (frames : List Frame) :
    List Token → Except Fault (Unit × List Token)
  | [] => .error ⟨"unexpected end", default⟩
  | token :: rest =>
    match skipToken awaited frames token.kind with
    | none => .error ⟨"expected a value", token.mark⟩
    | some (_, []) => .ok ((), rest)
    | some (awaited, frames) => skipFrom awaited frames rest

/-- Passes over a value of any form. -/
def skip : Decoder Unit :=
  skipFrom .value []

/-- A member of a record: its key, whether it has to be there, and how it is read. -/
structure Field (σ : Type) where
  key : String
  required : Bool
  read : σ → Decoder σ

/-- A member that is read with a decoder of its own. -/
def Field.of (key : String) (item : Decoder α) (put : α → σ → σ) : Field σ :=
  ⟨key, false, fun s => return put (← item) s⟩

/-- A member that has to be there. -/
def Field.needed (key : String) (item : Decoder α) (put : α → σ → σ) : Field σ :=
  { Field.of key item put with required := true }

/-- The values of the members of a record in an array, in the order of the fields. -/
def positional : List (Field σ) → Bool → σ → Decoder σ
  | [], _, s => do
    expect .closeBracket "expected the end of the array"
    return s
  | f :: fields, first, s => do
    if (← peek).kind = .closeBracket then
      match (f :: fields).find? Field.required with
      | some missing => fail s!"missing field {missing.key}"
      | none => advance; return s
    else
      if !first then expect .comma "expected a comma"
      positional fields false (← f.read s)

/-- Reads one member of a record, or passes over it.  A known key may come once. -/
def recordMember (fields : List (Field σ)) (key : String) (state : List String × σ) :
    Decoder (List String × σ) := do
  let (seen, s) := state
  match fields.find? fun f => f.key = key with
  | none => do
    colon
    skip
    return (seen, s)
  | some f =>
    if seen.contains key then fail s!"duplicate field {key}"
    else
      colon
      return (key :: seen, ← f.read s)

/-- Reads a record: an object whose unknown members are passed over, or an array of the values of
its members in order. -/
def record (fields : List (Field σ)) (start : σ) : Decoder σ := do
  match (← peek).kind with
  | .openBracket =>
    advance
    positional fields true start
  | _ =>
    let (seen, s) ← object (recordMember fields) ([], start)
    match fields.find? fun f => f.required && !seen.contains f.key with
    | some missing => fail s!"missing field {missing.key}"
    | none => return s

/-- Reads an object as a list of entries whose keys are of some notation. -/
def entries (parseKey : String → Except String κ) (item : Decoder α) :
    Decoder (List (κ × α)) := do
  let read ← object (fun key before => do
    match parseKey key with
    | .ok k =>
      colon
      return (k, ← item) :: before
    | .error what => fail what) []
  return read.reverse

/-- Reads a whole text, in which some bytes may spell no character. -/
def runUnits (decoder : Decoder α) (units : List (Option Char)) : Except Fault α := do
  let (a, rest) ← decoder (tokens units)
  match rest with
  | [⟨.finish, _⟩] => return a
  | token :: _ => throw ⟨"trailing characters", token.mark⟩
  | [] => throw ⟨"unexpected end", default⟩

/-- Reads a whole text. -/
def run (decoder : Decoder α) (s : String) : Except Fault α :=
  runUnits decoder (s.toList.map some)

end Decoder

end RuleDepot.Json
