import RuleDepot.Files.Tree
/-!
Changes of the files.  An action either succeeds or fails with the reason, and what it did before
it failed stays done.  Files are published by staging the bytes under a temporary name in the same
directory and renaming, so an action that fails leaves no staged file and no half-written one.
-/

namespace RuleDepot

/-- An action on the files. -/
abbrev FileM : Type → Type :=
  EStateM IoError Tree

namespace FileM

/-- Fails for a reason that its kind says. -/
def fail {α : Type} (kind : IoKind) : FileM α :=
  throw (.ofKind kind)

/-- The result of looking something up, as an action. -/
def ofLookup {α : Type} : Except IoKind α → FileM α
  | .ok a => pure a
  | .error kind => fail kind

/-- The result of reading, as an action. -/
def ofRead {α : Type} (look : Tree → Except IoError α) : FileM α := do
  match look (← get) with
  | .ok a => pure a
  | .error e => throw e

/-- Makes one directory, whose parent has to be there. -/
def makeDir (p : Path) : FileM Unit := do
  let t ← get
  let target ← ofLookup (t.target p)
  match target.place? with
  | none => fail .alreadyExists
  | some place =>
    if (t.node? place).isSome then fail .alreadyExists
    else set (t.insert place .directory)

/-- A path and its parents, the path first, up to `n` of them. -/
def ancestors : Nat → Path → List Path
  | 0, _ => []
  | n + 1, p => p :: (match p.parent? with
    | some parent => ancestors n parent
    | none => [])

/-- Makes the first directory of a list after those behind it, as far as they are missing. -/
def makeChain : List Path → FileM Unit
  | [] => fail .other
  | p :: parents => do
    if p.text.isEmpty then return
    match makeDir p (← get) with
    | .ok _ t => set t
    | .error e t =>
      set t
      if e.kind = .notFound then
        makeChain parents
        match makeDir p (← get) with
        | .ok _ t => set t
        | .error e t => if t.isDir p then set t else throw e
      else if t.isDir p then return
      else throw e

/-- Makes a directory and all its missing parents. -/
def makeDirs (p : Path) : FileM Unit :=
  makeChain (ancestors (p.pieces.length + 2) p)

/-- Makes a directory and all its missing parents, and refuses a path at which something else
stands. -/
def ensureDir (p : Path) : FileM Unit := do
  let t ← get
  if !t.reaches p then makeDirs p
  else if t.isDir p then return
  else throw ⟨.alreadyExists, s!"Path exists but is not a directory: {p.text}"⟩

/-- Puts bytes at a path in one step, over whatever file stands there. -/
def replaceFile (p : Path) (bytes : ByteArray) : FileM Unit := do
  let t ← get
  let target ← ofLookup (t.target p)
  match target.place? with
  | none => fail .resourceBusy
  | some place =>
    match t.node? place with
    | some .directory => fail (if target.slashed then .notADirectory else .isADirectory)
    | _ => if target.slashed then fail .notADirectory else set (t.insert place (.file bytes))

/-- A name for staged files.  The digits stand for those that are drawn, which no file there has. -/
def stagedName : String := ".staging-000000"

/-- The path of a staged file, which is absolute even if that of the directory is not. -/
def stagedPath (t : Tree) (dir : Path) : Path :=
  (if dir.isAbsolute then dir else Path.ofPieces true t.workingDir / dir) / stagedName

/-- Makes a file to stage bytes in.  Nobody else sees it, and it is gone when the action is over; but
its path has to be admissible, which may be longer than that of the file to be published. -/
def stage (dir : Path) : FileM Unit := do
  ofLookup (Tree.admissible (stagedPath (← get) dir))

/-- Writes a file so that readers see the former contents or all of the new ones. -/
def publishBytes (p : Path) (bytes : ByteArray) : FileM Unit := do
  ensureDir p.stagingDir
  stage p.stagingDir
  replaceFile p bytes

/-- Copies a file so that readers see the former contents or all of the new ones; says how many
bytes were copied. -/
def publishCopy (source dest : Path) : FileM Nat := do
  ensureDir dest.stagingDir
  stage dest.stagingDir
  let bytes ← ofRead fun t => t.read source
  replaceFile dest bytes
  return bytes.size

/-- Makes sure that a file is there, and leaves it alone if it is. -/
def touch (p : Path) : FileM Unit := do
  let t ← get
  let target ← ofLookup (t.target p)
  match target.place? with
  | none => fail .isADirectory
  | some place =>
    match t.node? place with
    | some .directory => fail .isADirectory
    | some (.file _) => if target.slashed then fail .notADirectory else return
    | none =>
      if target.slashed then fail .isADirectory
      else set (t.insert place (.file ByteArray.empty))

/-- Writes a file where it stands. -/
def writeFile (p : Path) (bytes : ByteArray) : FileM Unit := do
  touch p
  replaceFile p bytes

/-- Takes a file away. -/
def removeFile (p : Path) : FileM Unit := do
  let t ← get
  let place ← ofLookup (t.locate p)
  match t.node? place with
  | some (.file _) => set (t.erase place)
  | some .directory => fail .isADirectory
  | none => fail .notFound

/-- Takes a directory and everything in it away; one that is not there is no failure.  A path that
ends in a single dot only empties the directory and fails then; behind a double dot, or at the root,
the directory stays as well. -/
def removeDirs (p : Path) : FileM Unit := do
  let t ← get
  match t.locate p with
  | .error .notFound => return
  | .error kind => fail kind
  | .ok place =>
    match t.node? place with
    | some (.file _) => fail .notADirectory
    | some .directory =>
      match p.pieces.reverse.find? (· ≠ "") with
      | none => fail .resourceBusy
      | some "." => do
        set (t.eraseBelow place)
        fail .invalidInput
      | some ".." => set (t.eraseBelow place)
      | some _ => set (t.erase place)
    | none => return

/-- Everything at or below a location, put at another one. -/
def graft (t : Tree) (source dest : Location) : Tree :=
  (t.under source).foldl
    (fun grown (place, node) => grown.insert (dest ++ place.drop source.length) node)
    (t.erase source)

/-- Moves a file or directory to another path. -/
def rename (source dest : Path) : FileM Unit := do
  let t ← get
  let from_ ← ofLookup (t.locate source)
  let target ← ofLookup (t.target dest)
  match target.place?, t.node? from_ with
  | none, _ => fail .resourceBusy
  | _, none => fail .notFound
  | some place, some node =>
    if place = from_ then return
    else if from_.isPrefixOf place then fail .invalidInput
    else if place.isPrefixOf from_ then fail .directoryNotEmpty
    else
      match node, t.node? place with
      | .file _, some .directory => fail .isADirectory
      | .directory, some (.file _) => fail .notADirectory
      | .directory, some .directory =>
        if (t.children place).isEmpty then set (graft (t.erase place) from_ place)
        else fail .directoryNotEmpty
      | .file _, _ => if target.slashed then fail .notADirectory else set (graft t from_ place)
      | .directory, none => set (graft t from_ place)

end FileM

end RuleDepot
