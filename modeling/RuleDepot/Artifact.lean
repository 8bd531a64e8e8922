import RuleDepot.Coordinate.Artifact
import RuleDepot.Failure
import RuleDepot.Files.Content
/-!
Artifacts: a coordinate bound to the file that was found for it, the digest that identifies its
contents, and whether the file belongs to the project itself.
-/

namespace RuleDepot

/-- What the digest of an artifact is taken over. -/
inductive HashMode where
  /-- The bytes of the file. -/
  | content
  /-- The text of the coordinate, which does not notice that a file was published again. -/
  | coordinate
  deriving DecidableEq, Repr, Inhabited

namespace HashMode

def text : HashMode → String
  | content => "content"
  | coordinate => "coordinate"

def named? : String → Option HashMode
  | "content" => some content
  | "coordinate" => some coordinate
  | _ => none

end HashMode

/-- The digest that identifies the contents of an artifact. -/
structure ContentHash where
  digits : String
  deriving DecidableEq, Repr, Inhabited

namespace ContentHash

/-- The digest of a coordinate's text. -/
def ofCoordinate (key : ArtifactKey) : ContentHash :=
  ⟨Digest.sha256Hex key.text.toUTF8⟩

def text (h : ContentHash) : String :=
  s!"sha256:{h.digits}"

/-- The first eight digits, which tell files of one name apart. -/
def short (h : ContentHash) : String :=
  String.ofList (Text.withinBytes 8 h.digits.toList)

instance : Ord ContentHash := ⟨compareOn digits⟩

instance : Std.TransOrd ContentHash :=
  inferInstanceAs (Std.TransCmp (compareOn digits))

instance : Std.LawfulEqOrd ContentHash where
  eq_of_compare {a b} h := by
    have h : a.digits = b.digits := Std.LawfulEqOrd.eq_of_compare h
    cases a; cases b
    simp_all

end ContentHash

/-- Where the file of an artifact comes from. -/
inductive Origin where
  /-- From a repository outside the project. -/
  | external
  /-- From inside the workspace. -/
  | project
  deriving DecidableEq, Repr

namespace Origin

def text : Origin → String
  | external => "external"
  | project => "local"

end Origin

/-- A coordinate together with its file. -/
structure Artifact where
  key : ArtifactKey
  source : Path
  hash : ContentHash
  origin : Origin
  deriving DecidableEq

namespace Artifact

/-- The extension for files whose name has none. -/
def defaultExtension : String := "jar"

/-- The extension of the file. -/
def extension (a : Artifact) : String :=
  a.source.extension?.getD defaultExtension

/-- Binds a coordinate to a file and takes its digest.  A file that is not there leaves the
coordinate unresolved. -/
def bind (t : Tree) (mode : HashMode) (origin : Origin) (key : ArtifactKey) (source : Path) :
    Except BuildError Artifact :=
  if !t.isFile source then .error (.unresolvedDependency key.text none)
  else
    match mode with
    | .coordinate => .ok ⟨key, source, .ofCoordinate key, origin⟩
    | .content =>
      match t.sha256 source with
      | .ok digits => .ok ⟨key, source, ⟨digits⟩, origin⟩
      | .error e => .error (.io s!"hashing {source.text} for {key.text}" e)

end Artifact

end RuleDepot
