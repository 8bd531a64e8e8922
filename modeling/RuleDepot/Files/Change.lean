import RuleDepot.Files.Tree
/-!
What tells two trees apart, as a list of changes that make the first the second.  What goes is taken
away before anything is made, files before the directory they are in; what comes is made in order,
a directory before what is in it.
-/

namespace RuleDepot

/-- One change at a location. -/
inductive Change where
  | removeFile (place : Location)
  | removeDir (place : Location)
  | makeDir (place : Location)
  | writeFile (place : Location) (bytes : ByteArray)

namespace Change

/-- Takes away what stands at a location. -/
def removal : Location × Node → Change
  | (place, .file _) => removeFile place
  | (place, .directory) => removeDir place

/-- Makes what is to stand at a location. -/
def making : Location × Node → Change
  | (place, .file bytes) => writeFile place bytes
  | (place, .directory) => makeDir place

/-- Whether a file takes the place of a file, so that nothing has to be taken away first. -/
def replaces : Node → Option Node → Bool
  | .file _, some (.file _) => true
  | _, _ => false

end Change

namespace Tree

/-- The changes that lead from a tree to another. -/
def changes (old new : Tree) : List Change :=
  let gone := old.nodes.toList.filter fun (place, node) =>
    new.nodes[place]? ≠ some node && !Change.replaces node new.nodes[place]?
  let fresh := new.nodes.toList.filter fun (place, node) => old.nodes[place]? ≠ some node
  gone.reverse.map Change.removal ++ fresh.map Change.making

end Tree

end RuleDepot
