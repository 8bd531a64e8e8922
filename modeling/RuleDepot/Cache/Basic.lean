import RuleDepot.Cache.Naming
import RuleDepot.Cache.Shelf
import RuleDepot.Resolver
import RuleDepot.Step
/-!
The cache of one shelf.  A request for an artifact gives an entry that names the file to use.  The
project's own files are used where they are unless a copy is asked for; any other file is copied
once, under a name that no other contents hold.  A file that is already there with the same bytes
is used as it is, and a file is never overwritten.  A request that fails leaves the entries, the
claimed names and the counters as they were.

Requests are answered one after another here, so what only matters while several are under way is left
out.  A name is claimed once its file is there: to claim it first, and to take the claim back if the
copy fails, comes to the same, since nobody looks at the claims in between.  In the same way there is no
entry for a request before its answer is known, and none to be taken back if that is a failure.
-/

namespace RuleDepot

/-- What identifies an entry: the coordinate and the digest of the contents. -/
structure EntryId where
  key : ArtifactKey
  hash : ContentHash
  deriving DecidableEq

namespace EntryId

instance : Ord EntryId := ⟨compareLex (compareOn key) (compareOn hash)⟩

instance : Std.TransOrd EntryId :=
  inferInstanceAs (Std.TransCmp (compareLex (compareOn key) (compareOn hash)))

instance : Std.LawfulEqOrd EntryId where
  eq_of_compare {a b} h := by
    have h : compareLex (compareOn key) (compareOn hash) a b = .eq := h
    simp only [compareLex_eq_eq] at h
    have hk : a.key = b.key := Std.LawfulEqOrd.eq_of_compare h.1
    have hh : a.hash = b.hash := Std.LawfulEqOrd.eq_of_compare h.2
    cases a; cases b
    simp_all

end EntryId

/-- A file that stands for an artifact. -/
structure CacheEntry where
  fileName : String
  path : Path
  artifact : Artifact
  /-- Whether the file was put into the cache, and is not used where it was. -/
  materialized : Bool
  deriving DecidableEq

namespace CacheEntry

/-- The project's own file, used where it is. -/
def inPlace (a : Artifact) : CacheEntry :=
  ⟨a.source.fileName?.getD (Naming.stem a.key), a.source, a, false⟩

def key (e : CacheEntry) : ArtifactKey :=
  e.artifact.key

def ruleName (e : CacheEntry) : String :=
  Naming.ruleName e.fileName

end CacheEntry

/-- The cache of one shelf during one pass. -/
structure Cache where
  shelf : Shelf
  /-- The directory that the cache writes into. -/
  root : Path
  resolver : Resolver
  entries : Table EntryId CacheEntry
  /-- The digest of the contents that each file name was claimed for in this pass. -/
  claims : Table String ContentHash
  isSealed : Bool
  copies : Nat
  reuses : Nat

namespace Cache

/-- The name of the rule file in the directory of a shelf. -/
def ruleFileName : String := "BUCK"

/-- A cache that nothing was asked of. -/
def new (shelf : Shelf) (cacheRoot : Path) (resolver : Resolver) : Cache :=
  ⟨shelf, cacheRoot / shelf.dirName, resolver, ∅, ∅, false, 0, 0⟩

/-- Where the rule file of the shelf is. -/
def ruleFilePath (c : Cache) : Path :=
  c.root / ruleFileName

/-- The label by which build rules refer to an entry: the file itself when it was not put into the
cache, else its rule in the directory of the shelf, seen from the workspace if it is inside. -/
def label (c : Cache) (e : CacheEntry) : String :=
  if !e.materialized then e.path.text
  else
    match c.root.relativeTo? c.resolver.workspace with
    | some dir => "//" ++ "/".intercalate (dir.components.map Component.text) ++ ":" ++ e.ruleName
    | none => c.root.text ++ ":" ++ e.ruleName

/-- Where the locks of the shelf are. -/
def lockDir (c : Cache) : Path :=
  c.root / ".locks"

/-- No request is answered after this. -/
def sealed (c : Cache) : Cache :=
  { c with isSealed := true }

/-- The entries that were put into the cache, by file name. -/
def listing (c : Cache) : List CacheEntry :=
  c.entries.values.mergeSort fun a b => a.fileName ≤ b.fileName

/-- An artifact could not be written. -/
def writeFailure (c : Cache) (a : Artifact) (path : Path) (cause : IoError) : BuildError :=
  .cacheWriteFailure c.shelf.dirName a.key.text path cause

/-- Takes the lock of an artifact, which keeps other processes from publishing it. -/
def lock (a : Artifact) : Step Cache Unit := do
  let c ← Step.part
  Step.files (.io s!"creating lock directory {c.lockDir.text}") (FileM.makeDirs c.lockDir)
  let path := c.lockDir / s!"{Naming.stem a.key}.lock"
  Step.files (.io s!"acquiring lock {path.text}") (FileM.touch path)

/-- Claims a file name for contents. -/
def claim (name : String) (hash : ContentHash) (c : Cache) : Cache :=
  { c with claims := c.claims.insert name hash }

/-- Puts an artifact under the first of several names that is free or holds its contents already;
says which, and whether the file was copied. -/
def place (a : Artifact) : List String → Step Cache (String × Bool)
  | [] => do
    let c ← Step.part
    throw (c.writeFailure a c.root
      ⟨.alreadyExists, s!"every candidate name for {a.key.text} holds different content"⟩)
  | name :: others => do
    let c ← Step.part
    let t ← Step.tree
    let dest := c.root / name
    match c.claims[name]? with
    | some hash =>
      if hash = a.hash && t.isFile dest then return (name, false)
      else place a others
    | none =>
      if t.reaches dest then
        match t.sameContent a.source dest with
        | .error e => throw (c.writeFailure a dest e)
        | .ok false => place a others
        | .ok true =>
          Step.change (claim name a.hash)
          return (name, false)
      else
        let _ ← Step.files (c.writeFailure a dest) (FileM.publishCopy a.source dest)
        Step.change (claim name a.hash)
        return (name, true)

/-- Makes sure that the cache holds a file for an artifact. -/
def publish (a : Artifact) : Step Cache (String × Bool) := do
  let c ← Step.part
  if !(← Step.tree).isFile a.source then
    throw (.unresolvedDependency a.key.text none)
  Step.files (c.writeFailure a c.root) (FileM.ensureDir c.root)
  place a (Naming.candidates a)

/-- Counts a copy or a reuse and keeps the entry. -/
def record (a : Artifact) (entry : CacheEntry) (copied : Bool) (c : Cache) : Cache :=
  { c with
    entries := c.entries.insert ⟨a.key, a.hash⟩ entry
    copies := if copied then c.copies + 1 else c.copies
    reuses := if copied then c.reuses else c.reuses + 1 }

/-- The entry for an artifact, which is put into the cache on the first request.  The project's
own files stay where they are unless a copy is forced. -/
def fetch (a : Artifact) (forced : Bool) : Step Cache CacheEntry := do
  let c ← Step.part
  if c.isSealed then
    throw (.protocolViolation s!"{c.shelf.dirName} cache" s!"'{a.key.text}' requested after finalize")
  if a.origin = .project && !forced then return .inPlace a
  match c.entries[(⟨a.key, a.hash⟩ : EntryId)]? with
  | some entry => return entry
  | none =>
    lock a
    let (name, copied) ← publish a
    let entry : CacheEntry := ⟨name, c.root / name, a, true⟩
    Step.change (record a entry copied)
    return entry

/-- The entries for several artifacts, in order. -/
def fetchAll (requests : List (Artifact × Bool)) : Step Cache (List CacheEntry) :=
  requests.mapM fun (a, forced) => fetch a forced

/-- Resolves and fetches a named set of coordinates.  Nothing is fetched unless all of them can be
resolved. -/
def build (name : String) (keys : List ArtifactKey) : Step Cache (List CacheEntry) := do
  let c ← Step.part
  let found ← Step.ofExcept (c.resolver.resolveSet (← Step.tree) name keys)
  fetchAll (found.map fun a => (a, false))

end Cache

end RuleDepot
