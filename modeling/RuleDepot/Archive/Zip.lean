import RuleDepot.Archive.Ending
import RuleDepot.Archive.Entry
import RuleDepot.Archive.Inflate
/-!
Reading one file out of a zip archive.  The directory of the archive is found from a record behind
it; it says where each file is, how it was packed and what its checksum is.  A directory counts
only if all of its entries and the fronts of all files can be read; otherwise an earlier record is
tried.
-/

namespace RuleDepot.Archive

/-- The place of the contents of the file that begins at a place. -/
def contentsPlace? (bytes : ByteArray) (start : Nat) : Option Nat := do
  if !marked bytes start fileMark then none
  let nameSize ← numberAt? bytes (start + 26) 2
  let extraSize ← numberAt? bytes (start + 28) 2
  return start + 30 + nameSize + extraSize

/-- A file and where its contents are. -/
structure PackedFile where
  entry : ZipEntry
  place : Nat

/-- The files of a directory from a place on.  No file reaches into the directory with its front. -/
def filesFrom? (bytes : ByteArray) (d : DirectoryPlace) : Nat → Nat → Option (List PackedFile)
  | 0, _ => some []
  | count + 1, place => do
    let (entry, behind) ← ZipEntry.at? bytes place
    let start := entry.start + d.shift
    let contents ← contentsPlace? bytes start
    if d.start ≤ start || d.start < contents then none
    let rest ← filesFrom? bytes d count behind
    return ⟨entry, contents⟩ :: rest

/-- The files of the directory in front of a record, if it can be read. -/
def Ending.files? (bytes : ByteArray) (e : Ending) : Option (List PackedFile) := do
  let d ← e.directory? bytes
  filesFrom? bytes d d.count d.start

/-- The files of an archive. -/
def files? (bytes : ByteArray) : Option (List PackedFile) :=
  (endings bytes).findSome? (Ending.files? bytes)

/-- The contents of a file, unpacked and checked. -/
def PackedFile.contents? (bytes : ByteArray) (f : PackedFile) : Option ByteArray := do
  if f.entry.isLocked then none
  let packed := bytes.extract f.place (f.place + f.entry.packedSize)
  let contents ← match f.entry.method with
    | 0 => some packed
    | 8 => inflate packed
    | _ => none
  if (Digest.crc32 contents).toNat = f.entry.checksum then some contents else none

/-- The contents of the file of a name; of several with one name the last counts. -/
def zipMember? (bytes : ByteArray) (name : String) : Option ByteArray := do
  let all ← files? bytes
  let f ← all.reverse.find? fun f => f.entry.name = name
  f.contents? bytes

/-- The text of the file of a name. -/
def zipText? (bytes : ByteArray) (name : String) : Option String := do
  String.fromUTF8? (← zipMember? bytes name)

end RuleDepot.Archive
