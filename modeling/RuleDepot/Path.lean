import RuleDepot.Text.Basic
/-!
Paths as written.  A path keeps its text, so it prints as it was given; comparison, parents and
relative forms look at its components instead, which pass over repeated slashes and single dots
and leave double dots alone.
-/

namespace RuleDepot

/-- A slash-separated path, absolute when its text begins with a slash. -/
structure Path where
  text : String
  deriving DecidableEq, Repr, Inhabited

/-- What a path is made of when fillers are passed over. -/
inductive Component where
  /-- The slash at the front of an absolute path. -/
  | root
  /-- A single dot, which counts only at the front of a relative path. -/
  | current
  /-- A double dot. -/
  | parent
  | name (text : String)
  deriving DecidableEq, Repr

namespace Component

def text : Component → String
  | root => "/"
  | current => "."
  | parent => ".."
  | name s => s

end Component

namespace Path

/-- Whether the text begins with a slash. -/
def isAbsolute (p : Path) : Bool :=
  p.text.toList.head? == some '/'

/-- The pieces between slashes, less the empty one in front of the first slash of an absolute
path. -/
def pieces (p : Path) : List String :=
  match Text.splitChars (· == '/') p.text.toList with
  | [] => []
  | first :: rest => if p.isAbsolute then rest.map String.ofList
      else (first :: rest).map String.ofList

/-- A piece that is no component: nothing between two slashes, or a single dot. -/
def isFiller (piece : String) : Bool :=
  piece == "" || piece == "."

/-- The component that a piece stands for, if it is no filler. -/
def component? (piece : String) : Option Component :=
  if isFiller piece then none
  else if piece == ".." then some .parent
  else some (.name piece)

/-- The components of a path. -/
def components (p : Path) : List Component :=
  let named := p.pieces.filterMap component?
  if p.isAbsolute then .root :: named
  else if p.pieces.head? == some "." then .current :: named
  else named

/-- Writes pieces behind each other with slashes between them. -/
def ofPieces (absolute : Bool) (pieces : List String) : Path :=
  let body := "/".intercalate pieces
  ⟨if absolute then "/" ++ body else body⟩

/-- Drops the fillers at the end; a dot that begins a relative path stays. -/
def dropFillersAtEnd (absolute : Bool) (pieces : List String) : List String :=
  match pieces with
  | [] => []
  | first :: rest =>
    let kept := (rest.reverse.dropWhile isFiller).reverse
    if kept.isEmpty && (first == "" || (absolute && first == ".")) then [] else first :: kept

/-- The path behind which the last component stands; the root and the empty path have none. -/
def parent? (p : Path) : Option Path :=
  match (dropFillersAtEnd p.isAbsolute p.pieces).reverse with
  | [] => none
  | _ :: before => some (ofPieces p.isAbsolute (dropFillersAtEnd p.isAbsolute before.reverse))

/-- Puts a path behind another: an absolute one replaces it, and a slash is written between them
unless the first is empty or ends with one. -/
def join (p q : Path) : Path :=
  if q.isAbsolute then q
  else if p.text.isEmpty || p.text.toList.getLast? == some '/' then ⟨p.text ++ q.text⟩
  else ⟨p.text ++ "/" ++ q.text⟩

instance : Div Path := ⟨join⟩

instance : HDiv Path String Path := ⟨fun p s => p.join ⟨s⟩⟩

/-- The last component, when it is a name. -/
def fileName? (p : Path) : Option String :=
  match p.components.getLast? with
  | some (.name s) => some s
  | _ => none

/-- The part of the file name behind its last dot, when something stands in front of that dot. -/
def extension? (p : Path) : Option String := do
  let name ← p.fileName?
  let (stem, ext) ← Text.cutLast '.' name.toList
  if stem.isEmpty then none else some (String.ofList ext)

/-- Whether the components of `base` begin those of the path. -/
def isBelow (p base : Path) : Bool :=
  base.components.isPrefixOf p.components

/-- Drops pieces up to and with as many components as given. -/
def dropComponents : Nat → List String → List String
  | _, [] => []
  | 0, pieces => pieces.dropWhile isFiller
  | n + 1, piece :: rest => if isFiller piece then dropComponents (n + 1) rest
      else dropComponents n rest

/-- The path behind `base`, if the path is below it. -/
def relativeTo? (p base : Path) : Option Path :=
  if p.isBelow base then
    match base.components with
    | [] => some (ofPieces p.isAbsolute (dropFillersAtEnd p.isAbsolute p.pieces))
    | .root :: named =>
      some (ofPieces false (dropFillersAtEnd true (dropComponents named.length p.pieces)))
    | .current :: named =>
      some (ofPieces false (dropFillersAtEnd true (dropComponents named.length p.pieces.tail)))
    | named => some (ofPieces false (dropFillersAtEnd true (dropComponents named.length p.pieces)))
  else
    none

/-- Replaces a leading tilde component by the home directory. -/
def expandHome (home p : Path) : Path :=
  match p.relativeTo? ⟨"~"⟩ with
  | some rest => home / rest
  | none => p

/-- The path itself when it is absolute, else the path put behind `base`; a leading tilde stands
for the home directory. -/
def resolveAgainst (home base p : Path) : Path :=
  let expanded := Path.expandHome home p
  if expanded.isAbsolute then expanded else base / expanded

/-- The directory that a file is staged in: the parent, or the current directory. -/
def stagingDir (p : Path) : Path :=
  match p.parent? with
  | some parent => if parent.text.isEmpty then ⟨"."⟩ else parent
  | none => ⟨"."⟩

end Path

end RuleDepot
