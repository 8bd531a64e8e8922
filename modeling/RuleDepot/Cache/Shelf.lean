import RuleDepot.Language
/-!
The shelves of the cache: each kind of artifact is kept in a directory of its own below the cache
root, so the kinds never meet.
-/

namespace RuleDepot

/-- A kind of artifact, which owns one directory of the cache. -/
inductive Shelf where
  | external
  | processor
  | lint
  | runtime (language : Language)
  | transform
  | robolectric
  | tool
  /-- A set of artifacts that the configuration names. -/
  | extra (name : String)
  deriving DecidableEq, Repr

namespace Shelf

/-- The directory below the cache root. -/
def dirName : Shelf → String
  | external => "external"
  | processor => "processor"
  | lint => "lint"
  | runtime language => language.text
  | transform => "transform"
  | robolectric => "robolectric"
  | tool => "tool"
  | extra name => s!"extra/{name}"

/-- The shelf of a directory name; a name that no built-in shelf has is that of an extra one,
with or without the directory it is in. -/
def ofName (name : String) : Shelf :=
  if name = "external" then external
  else if name = "processor" then processor
  else if name = "lint" then lint
  else if name = "transform" then transform
  else if name = "robolectric" then robolectric
  else if name = "tool" then tool
  else match Language.named? name with
    | some language => runtime language
    | none =>
      match name.toList with
      | 'e' :: 'x' :: 't' :: 'r' :: 'a' :: '/' :: rest => extra (String.ofList rest)
      | _ => extra name

end Shelf

end RuleDepot
