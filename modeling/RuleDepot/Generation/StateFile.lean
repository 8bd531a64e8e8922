import RuleDepot.Failure
import RuleDepot.Files.Action
import RuleDepot.Instant.Reader
import RuleDepot.Json.Decoder
import RuleDepot.Json.Printer
import RuleDepot.Table
/-!
The state file, which a successful pass leaves in the workspace.  What is written is read back as
it was.
-/

namespace RuleDepot

/-- What a state file says. -/
structure StateFile where
  generatedAt : Instant
  /-- The version of the tool that wrote it. -/
  toolVersion : String
  /-- How many modules were visited. -/
  modules : Nat
  ruleFiles : List Path
  /-- How many artifacts each shelf of the cache holds. -/
  categories : Table String Nat

namespace StateFile

/-- Where the state file is in a workspace. -/
def location : Path := ⟨".buckforge/state/STATE"⟩

/-- The version of this tool. -/
def currentVersion : String := "0.1.0"

/-- The text of a state file. -/
def print (s : StateFile) : List Char :=
  Json.recordText 0
    [("generated_at", Json.quoted s.generatedAt.text),
      ("buckforge_version", Json.quoted s.toolVersion),
      ("modules", Json.decimal s.modules),
      ("rule_files", Json.listText 1 (s.ruleFiles.map fun p => Json.quoted p.text)),
      ("categories",
        Json.recordText 1 (s.categories.toList.map fun (name, n) => (name, Json.decimal n)))]

/-- The notation of instants. -/
def instant (s : String) : Except String Instant :=
  match Instant.parse? s with
  | some i => .ok i
  | none => .error "expected a date and a time"

open Json in
/-- Reads a state file; members that are not known are passed over, and all known ones have to be
there. -/
def decoder : Decoder StateFile :=
  Decoder.record
    [.needed "generated_at" (Decoder.parsed instant) fun generatedAt s => { s with generatedAt },
      .needed "buckforge_version" Decoder.text fun toolVersion s => { s with toolVersion },
      .needed "modules" Decoder.word fun modules s => { s with modules },
      .needed "rule_files" (Decoder.list Decoder.text)
        fun files s => { s with ruleFiles := files.map Path.mk },
      .needed "categories" (Decoder.entries .ok Decoder.word)
        fun entries s =>
          { s with
            categories := entries.foldl (fun table (name, n) => table.insert name n) ∅ }]
    ⟨.epoch, "", 0, [], ∅⟩

/-- What some bytes say, if they are a state file.  Only those that are read have to spell
characters. -/
def parse? (content : ByteArray) : Option StateFile :=
  (Json.Decoder.runUnits decoder (Text.units content)).toOption

/-- Writes a state file. -/
def write (s : StateFile) (file : Path) : FileM Unit :=
  FileM.publishBytes file (String.ofList s.print).toUTF8

/-- The failure to write a state file. -/
def writeFailure (file : Path) (e : IoError) : BuildError :=
  .io s!"writing {file.text}" e

/-- Reads a state file, if it is there. -/
def read (t : Tree) (file : Path) : Except BuildError (Option StateFile) :=
  match t.read file with
  | .error e => if e.kind = .notFound then .ok none else .error (.io s!"reading {file.text}" e)
  | .ok bytes =>
    match parse? bytes with
    | some s => .ok (some s)
    | none => .error (.io s!"parsing {file.text}" ⟨.other, "the state file cannot be read"⟩)

end StateFile

end RuleDepot
