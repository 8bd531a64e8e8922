import RuleDepot.Command.Footprint
import RuleDepot.Files.Change
import Std.Time.DateTime.Timestamp
/-!
The program.  It reads the files that a command looks at, runs the command on them as a value, and
makes the changes that the command made to that value on the machine.
-/

namespace RuleDepot.Machine

open Command

/-- The text of a location. -/
def textOf (place : Location) : String :=
  (Path.ofPieces true place).text

/-- Adds what stands at a location of the machine, with all that is below a directory. -/
partial def addAll (t : Tree) (place : Location) : IO Tree := do
  let file := (← IO.currentDir) / textOf place
  if ← file.isDir then
    let names := (← file.readDir).toList.map fun entry => entry.fileName
    names.foldlM (fun t name => addAll t (place ++ [name]))
      (if place.isEmpty then t else t.insert place .directory)
  else if ← file.pathExists then
    return t.insert place (.file (← IO.FS.readBinFile file))
  else return t

/-- Adds the directories that a path leads through; says where it ends. -/
def addWay (t : Tree) (p : Path) : IO (Tree × Location) :=
  p.pieces.foldlM
    (fun (t, place) piece => do
      if Path.isFiller piece then return (t, place)
      else if piece = ".." then return (t, place.dropLast)
      else
        let further := place ++ [piece]
        let isDir ← ((← IO.currentDir) / textOf further).isDir
        return (if isDir then t.insert further .directory else t, further))
    (t, t.start p)

/-- Adds what a path leads to. -/
def addPath (t : Tree) (p : Path) : IO Tree := do
  let (t, place) ← addWay t p
  addAll t place

/-- Makes a change on the machine.  A file is written under another name first, so that readers see
the former contents or all of the new ones. -/
def make : Change → IO Unit
  | .removeFile place => IO.FS.removeFile (textOf place)
  | .removeDir place => IO.FS.removeDir (textOf place)
  | .makeDir place => IO.FS.createDir (textOf place)
  | .writeFile place bytes => do
    let staged := textOf place ++ ".tmp"
    IO.FS.writeBinFile staged bytes
    IO.FS.rename staged (textOf place)

/-- What the program is called in. -/
def surroundings : IO Surroundings := do
  let home ← IO.getEnv "HOME"
  let configFile ← IO.getEnv "BUCKFORGE_CONFIG"
  let cacheDir ← IO.getEnv "BUCKFORGE_CACHE_DIR"
  let clock ← Std.Time.Timestamp.now
  let here ← IO.currentDir
  return ⟨⟨⟨home.getD "~"⟩, configFile.map Path.mk, cacheDir.map Path.mk⟩, ⟨here.toString⟩,
    Instant.sinceEpoch clock.toNanosecondsSinceUnixEpoch.val.toNat⟩

/-- The files that a command looks at. -/
def snapshot (s : Surroundings) (i : Invocation) : IO Tree := do
  let c := Context.of s i
  let (t, here) ← addWay .empty s.workingDir
  let t ← (inputs c i.task).foldlM addPath { t with workingDir := here }
  (stores c i.task t).foldlM addPath t

/-- Runs a command on the files of the machine; gives the exit code. -/
def run (i : Invocation) : IO UInt32 := do
  let s ← surroundings
  let before ← snapshot s i
  let (code, terminal, told) := match Command.run s i ⟨"", before⟩ with
    | .ok () terminal => ((0 : UInt32), terminal, "")
    | .error e terminal => (1, terminal, e.notice.lines)
  (before.changes terminal.tree).forM make
  IO.print terminal.output
  IO.eprint told
  return code

/-- How the program is called. -/
def usage : String :=
  "Usage: buckforge [OPTIONS] <COMMAND>\n\nCommands:\n" ++
    "  generate --model <FILE> [--max-parallel <NUM>]\n  clean [--all]\n  cache info\n\nOptions:\n" ++
    "  -v, --verbose\n  -q, --quiet\n      --config <PATH>\n  -C, --workspace <DIR>\n" ++
    "  -h, --help\n  -V, --version\n"

/-- Answers words that are no command; gives the exit code. -/
def explain : UsageError → IO UInt32
  | .helpRequested => do
    IO.print usage
    return 0
  | .versionRequested => do
    IO.println s!"buckforge {StateFile.currentVersion}"
    return 0
  | _ => do
    IO.eprint usage
    return 2

end RuleDepot.Machine

/-- Runs the program. -/
def main (words : List String) : IO UInt32 :=
  match RuleDepot.Command.parse words with
  | .ok i => RuleDepot.Machine.run i
  | .error e => RuleDepot.Machine.explain e
