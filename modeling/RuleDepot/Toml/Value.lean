/-!
TOML values, and how tables grow while a document is read.  A table remembers what opened it,
because that decides whether a later line may add to it: a header may open every table once, dotted
keys add only to tables that dotted keys opened, and nothing adds to a table in braces or an array
in brackets.
-/

namespace RuleDepot.Toml

/-- What opened a table. -/
inductive Opening where
  /-- A header of its own. -/
  | header
  /-- The header of a table inside it. -/
  | inner
  /-- A dotted key. -/
  | dotted
  /-- Braces. -/
  | braces
  deriving DecidableEq, Repr

/-- A value of a document. -/
inductive Value where
  | text (s : String)
  /-- A whole number, unless its digits say none. -/
  | integer (n : Option Int)
  | float
  | bool (b : Bool)
  /-- A date or a time, in its usual form. -/
  | moment (s : String)
  /-- An array; whether headers add tables to it. -/
  | array (grows : Bool) (items : List Value)
  | table (opening : Opening) (members : List (String × Value))

/-- The members of a table. -/
abbrev Members : Type := List (String × Value)

namespace Members

/-- Gives a key another value. -/
def setValue (ms : Members) (key : String) (value : Value) : Members :=
  ms.map fun m => if m.1 = key then (key, value) else m

/-- Adds a member, whose key has to be new. -/
def add? (ms : Members) (key : String) (value : Value) : Option Members :=
  if (ms.lookup key).isSome then none else some (ms ++ [(key, value)])

/-- Changes the members of the table that a path of keys leads to, and opens the tables on the way
that are not there.  `dots` says whether the path is a dotted key or that of a header. -/
def updateIn (dots : Bool) :
    List String → (Opening → Members → Option Members) → Opening → Members → Option Members
  | [], change, opening, ms => change opening ms
  | key :: path, change, _, ms =>
    match ms.lookup key with
    | none => do
      let opening := if dots then .dotted else .inner
      let inner ← updateIn dots path change opening []
      return ms ++ [(key, .table opening inner)]
    | some (.table opening inner) =>
      if opening = .braces || (dots && opening = .header) then none
      else do
        let inner ← updateIn dots path change opening inner
        return Members.setValue ms key (.table opening inner)
    | some (.array true items) =>
      match items.getLast? with
      | some (.table opening inner) => do
        let inner ← updateIn dots path change opening inner
        return Members.setValue ms key (.array true (items.dropLast ++ [.table opening inner]))
      | _ => none
    | _ => none

/-- Adds a value under a dotted key.  The table that gets it must have been opened by the same
means as the key reaches it by. -/
def addUnder (ms : Members) (opening : Opening) (path : List String) (key : String) (value : Value) :
    Option Members :=
  updateIn true path
    (fun opening ms =>
      if (opening = .dotted) = path.isEmpty then none else Members.add? ms key value)
    opening ms

/-- Opens a table by its header. -/
def openTable (ms : Members) (path : List String) (key : String) : Option Members :=
  updateIn false path
    (fun _ ms =>
      match ms.lookup key with
      | none => some (ms ++ [(key, .table .header [])])
      | some (.table .inner inner) => some (Members.setValue ms key (.table .header inner))
      | _ => none)
    .header ms

/-- Opens the next table of an array by its header. -/
def openElement (ms : Members) (path : List String) (key : String) : Option Members :=
  updateIn false path
    (fun _ ms =>
      match ms.lookup key with
      | none => some (ms ++ [(key, .array true [.table .header []])])
      | some (.array true items) =>
        some (Members.setValue ms key (.array true (items ++ [.table .header []])))
      | _ => none)
    .header ms

/-- Adds a value below the table that a header opened last. -/
def insertBelow (ms : Members) (header path : List String) (key : String) (value : Value) :
    Option Members :=
  updateIn false header (fun opening inner => Members.addUnder inner opening path key value) .header ms

end Members

end RuleDepot.Toml
