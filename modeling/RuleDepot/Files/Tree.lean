import RuleDepot.Files.Error
import RuleDepot.Path
import RuleDepot.Table
/-!
A tree of files and directories as a value.  Every file or directory but the root is one entry of
a table from its location, the names from the root down, to its node.  A path is followed piece
by piece: fillers stay where they are, a double dot goes up, a name goes down into a directory,
and anything behind a file fails.  Every change of a tree is an insertion into this table or a
removal from it.
-/

namespace RuleDepot

/-- The names that lead from the root to a file or directory. -/
abbrev Location : Type := List String

/-- What stands at a location. -/
inductive Node where
  | file (bytes : ByteArray)
  | directory

namespace Node

instance : DecidableEq Node
  | file a, file b => decidable_of_iff (a.data = b.data) (by rw [← ByteArray.ext_iff, file.injEq])
  | file _, directory => isFalse nofun
  | directory, file _ => isFalse nofun
  | directory, directory => isTrue rfl

end Node

/-- The files as one program run sees them. -/
structure Tree where
  /-- Everything but the root, which is always a directory. -/
  nodes : Table Location Node
  /-- Where relative paths begin. -/
  workingDir : Location

namespace Tree

/-- A root directory with nothing in it. -/
def empty : Tree :=
  ⟨∅, []⟩

instance : Inhabited Tree := ⟨empty⟩

/-- The node at a location. -/
def node? (t : Tree) (place : Location) : Option Node :=
  if place = [] then some .directory else t.nodes[place]?

/-- Puts a node at a location. -/
def insert (t : Tree) (place : Location) (node : Node) : Tree :=
  { t with nodes := t.nodes.insert place node }

/-- Takes away the node at a location and everything below it. -/
def erase (t : Tree) (place : Location) : Tree :=
  { t with nodes := t.nodes.filter fun other _ => !place.isPrefixOf other }

/-- Takes away everything below a location. -/
def eraseBelow (t : Tree) (place : Location) : Tree :=
  { t with nodes := t.nodes.filter fun other _ => other = place || !place.isPrefixOf other }

/-- Everything at or below a location, in order. -/
def under (t : Tree) (place : Location) : List (Location × Node) :=
  t.nodes.toList.filter fun (other, _) => place.isPrefixOf other

/-- The names directly in a directory, in order. -/
def children (t : Tree) (place : Location) : List String :=
  (t.under place).filterMap fun (other, _) =>
    match other.drop place.length with
    | [name] => some name
    | _ => none

/-- The greatest size of a name in bytes. -/
def nameLimit : Nat := 255

/-- The size in bytes that a path has to stay below. -/
def pathLimit : Nat := 4096

/-- The size that a directory is reported with. -/
def directorySize : Nat := 4096

/-- Goes one piece further from a location. -/
def follow (t : Tree) (place : Location) (piece : String) : Except IoKind Location :=
  match t.node? place with
  | none => .error .notFound
  | some (.file _) => .error .notADirectory
  | some .directory =>
    if Path.isFiller piece then .ok place
    else if piece = ".." then .ok place.dropLast
    else if nameLimit < piece.utf8ByteSize then .error .invalidFilename
    else if (t.node? (place ++ [piece])).isSome then .ok (place ++ [piece])
    else .error .notFound

/-- Refuses texts that no path may have. -/
def admissible (p : Path) : Except IoKind Unit :=
  if p.text.isEmpty then .error .notFound
  else if p.text.toList.contains '\x00' then .error .invalidInput
  else if pathLimit ≤ p.text.utf8ByteSize then .error .invalidFilename
  else .ok ()

/-- Where a path begins. -/
def start (t : Tree) (p : Path) : Location :=
  if p.isAbsolute then [] else t.workingDir

/-- The location that a path leads to. -/
def locate (t : Tree) (p : Path) : Except IoKind Location := do
  admissible p
  p.pieces.foldlM t.follow (t.start p)

/-- The node that a path leads to. -/
def status (t : Tree) (p : Path) : Except IoKind Node := do
  match t.node? (← t.locate p) with
  | some node => .ok node
  | none => .error .notFound

/-- Whether a path leads anywhere. -/
def reaches (t : Tree) (p : Path) : Bool :=
  (t.status p).isOk

/-- Whether a path leads to a file. -/
def isFile (t : Tree) (p : Path) : Bool :=
  match t.status p with
  | .ok (.file _) => true
  | _ => false

/-- Whether a path leads to a directory. -/
def isDir (t : Tree) (p : Path) : Bool :=
  match t.status p with
  | .ok .directory => true
  | _ => false

/-- The contents of the file that a path leads to. -/
def read (t : Tree) (p : Path) : Except IoError ByteArray :=
  match t.status p with
  | .ok (.file bytes) => .ok bytes
  | .ok .directory => .error (.ofKind .isADirectory)
  | .error kind => .error (.ofKind kind)

/-- The contents of a file that has to hold text. -/
def readText (t : Tree) (p : Path) : Except IoError String := do
  let bytes ← t.read p
  match String.fromUTF8? bytes with
  | some text => .ok text
  | none => .error (.ofKind .invalidData)

/-- The size of the file or directory that a path leads to. -/
def size (t : Tree) (p : Path) : Except IoError Nat :=
  match t.status p with
  | .ok (.file bytes) => .ok bytes.size
  | .ok .directory => .ok directorySize
  | .error kind => .error (.ofKind kind)

/-- The place of a directory entry that is to be made or replaced. -/
structure Target where
  /-- The directory that holds the entry. -/
  dir : Location
  /-- The name of the entry; a path that ends in dots or at the root names none. -/
  name? : Option String
  /-- Whether a slash stands behind the name, which only a directory can carry. -/
  slashed : Bool

/-- The location of the entry, if the path names one. -/
def Target.place? (target : Target) : Option Location :=
  target.name?.map fun name => target.dir ++ [name]

/-- The directory entry that a path is about, which need not be there yet. -/
def target (t : Tree) (p : Path) : Except IoKind Target := do
  admissible p
  let backwards := p.pieces.reverse
  let slashed := backwards.head? == some ""
  match backwards.dropWhile (· == "") with
  | [] => .ok ⟨t.start p, none, slashed⟩
  | last :: before =>
    let dir ← before.reverse.foldlM t.follow (t.start p)
    match t.node? dir with
    | none => .error .notFound
    | some (.file _) => .error .notADirectory
    | some .directory =>
      if last = "." || last = ".." then .ok ⟨dir, none, slashed⟩
      else if nameLimit < last.utf8ByteSize then .error .invalidFilename
      else .ok ⟨dir, some last, slashed⟩

end Tree

end RuleDepot
