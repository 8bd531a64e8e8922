import RuleDepot.Coordinate.Artifact
/-!
Module paths, and the dependencies that a module declares: another module, or an external
artifact.  A module path begins with a colon and no coordinate does, so the two never meet.
-/

namespace RuleDepot

/-- Path of a module in the host build, such as `:app` or `:libs:network`. -/
structure ModuleId where
  text : String
  deriving DecidableEq, Repr, Inhabited

namespace ModuleId

instance : ToString ModuleId := ⟨text⟩

/-- A part of a module path: something, and no blanks. -/
def isPart (part : List Char) : Bool :=
  !part.isEmpty && !part.any Text.isBlank

/-- Reads a module path: a colon alone for the root, or parts with a colon in front of each. -/
def parse (path : String) : Except BadCoordinate ModuleId :=
  match path.toList with
  | ':' :: rest =>
    if rest.isEmpty || (Text.splitChars (· == ':') rest).all isPart then .ok ⟨path⟩
    else .error (.of path .badModuleSegment)
  | _ => .error (.of path .noLeadingColon)

instance : Ord ModuleId := ⟨compareOn text⟩

instance : Std.TransOrd ModuleId :=
  inferInstanceAs (Std.TransCmp (compareOn text))

instance : Std.LawfulEqOrd ModuleId where
  eq_of_compare {a b} h := by
    have h : a.text = b.text := Std.LawfulEqOrd.eq_of_compare h
    cases a; cases b
    simp_all

end ModuleId

/-- One declared dependency edge. -/
inductive Dependency where
  | external (key : ArtifactKey)
  | module (id : ModuleId)
  deriving DecidableEq

namespace Dependency

/-- Reads a dependency; blanks around it are passed over, and a leading colon tells the two
forms apart. -/
def parse (s : String) : Except BadCoordinate Dependency :=
  let trimmed := Text.trim s
  if trimmed.toList.head? == some ':' then (ModuleId.parse trimmed).map .module
  else (ArtifactKey.parse trimmed).map .external

def text : Dependency → String
  | external key => key.text
  | module id => id.text

end Dependency

end RuleDepot
