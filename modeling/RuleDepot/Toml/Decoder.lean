import RuleDepot.Coordinate.Fault
import RuleDepot.Toml.Value
/-!
Reading typed values from TOML values.  Tables are gone through in the order of their keys, and a
key that is not known is a fault.
-/

namespace RuleDepot.Toml

/-- What cannot be read, and under which keys it stands. -/
structure Fault where
  keys : List String
  what : String
  /-- The coordinate at fault, if it is one. -/
  coordinate : Option BadCoordinate

namespace Fault

def message (f : Fault) : String :=
  let place := ".".intercalate f.keys
  match f.coordinate with
  | none => s!"TOML parse error at {place}: {f.what}"
  | some bad => s!"TOML parse error at {place}\n{bad.message}"

end Fault

/-- A reader of one value. -/
abbrev Decoder (α : Type) : Type :=
  Value → Except Fault α

namespace Decoder

variable {α σ : Type}

def fail (what : String) : Except Fault α :=
  .error ⟨[], what, none⟩

/-- Says under which key a fault stands. -/
def under (key : String) (r : Except Fault α) : Except Fault α :=
  r.mapError fun f => { f with keys := key :: f.keys }

def text : Decoder String
  | .text s => .ok s
  | _ => fail "expected a string"

def bool : Decoder Bool
  | .bool b => .ok b
  | _ => fail "expected a boolean"

/-- A number that fits a machine word. -/
def word : Decoder Nat
  | .integer (some n) =>
    if 0 ≤ n && n < (Text.wordLimit : Int) then .ok n.toNat
    else fail "expected a number that fits a machine word"
  | _ => fail "expected a number"

def list (item : Decoder α) : Decoder (List α)
  | .array _ items => items.mapM item
  | _ => fail "expected an array"

/-- A text of some notation. -/
def parsed (parse : String → Except BadCoordinate α) : Decoder α := fun v => do
  match parse (← text v) with
  | .ok a => return a
  | .error bad => throw ⟨[], "expected a coordinate", some bad⟩

/-- Whether a value has no parts although it could. -/
def isHollow : Value → Bool
  | .array _ items => items.isEmpty
  | .table _ members => members.isEmpty
  | _ => false

/-- One of several names, written as a text, or as the only key of a table without contents. -/
def named (named? : String → Option α) : Decoder α := fun v =>
  let name? := match v with
    | .text s => some s
    | .table _ [(s, inner)] => if isHollow inner then some s else none
    | _ => none
  match name?.bind named? with
  | some a => .ok a
  | none => fail "expected one of the known names"

/-- The members of a table in the order of their keys. -/
def sortedMembers (members : Members) : Members :=
  members.mergeSort fun a b => a.1 ≤ b.1

/-- The key under which a date or a time stands when it is read as a table. -/
def momentKey : String := "moment"

/-- A table with keys of the user's choice.  A date or a time is a table of one text. -/
def entries (item : Decoder α) : Decoder (List (String × α))
  | .moment s => do return [(momentKey, ← under momentKey (item (.text s)))]
  | .table _ members =>
    (sortedMembers members).mapM fun (key, v) => do return (key, ← under key (item v))
  | _ => fail "expected a table"

/-- A key of a record and how its value is read. -/
structure Field (σ : Type) where
  key : String
  read : Value → σ → Except Fault σ

/-- A key whose value is read with a decoder of its own. -/
def Field.of (key : String) (item : Decoder α) (put : α → σ → σ) : Field σ :=
  ⟨key, fun v s => do return put (← under key (item v)) s⟩

/-- A record: a table of known keys, or an array of their values in order, where keys and values
without a partner do not count. -/
def record (fields : List (Field σ)) (start : σ) : Decoder σ
  | .table _ members =>
    (sortedMembers members).foldlM
      (fun s (key, v) =>
        match fields.find? fun f => f.key = key with
        | some f => f.read v s
        | none => under key (fail "unknown key"))
      start
  | .array _ items => (fields.zip items).foldlM (fun s (f, v) => f.read v s) start
  | _ => fail "expected a table"

end Decoder

end RuleDepot.Toml
