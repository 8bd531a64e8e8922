import RuleDepot.Digest.Sha256
import RuleDepot.Files.Tree
/-!
What callers ask about the contents of files without changing any: the digest of one, whether two
are alike, and how much a directory holds.
-/

namespace RuleDepot.Tree

/-- The SHA-256 digest of a file. -/
def sha256 (t : Tree) (p : Path) : Except IoError String := do
  return Digest.sha256Hex (← t.read p)

/-- Whether two files hold the same, as far as their sizes and then their SHA-256 digests tell.  A
directory has a size too, so it is only read when the other one has that size. -/
def sameContent (t : Tree) (p q : Path) : Except IoError Bool := do
  if (← t.size p) ≠ (← t.size q) then return false
  return (← t.sha256 p) = (← t.sha256 q)

/-- How many bytes and files stand at or below a path. -/
def usage (t : Tree) (p : Path) : Except IoError (Nat × Nat) :=
  match t.locate p with
  | .error _ => .error (.ofKind .other)
  | .ok place =>
    .ok ((t.under place).foldl
      (fun (bytes, files) (_, node) =>
        match node with
        | .file content => (bytes + content.size, files + 1)
        | .directory => (bytes, files))
      (0, 0))

end RuleDepot.Tree
