import RuleDepot.Archive.Bytes
import RuleDepot.Archive.CodePage
import RuleDepot.Digest.Crc32
import RuleDepot.Text.Utf8
/-!
Entries of the directory of an archive: what is known of a file.  Extra fields add to an entry what
has no room in it: sizes and a place of more than four bytes, and names and comments in Unicode.
Fields of a known kind have to keep its rules; bytes that end inside a field are no fault, and what
was read of them counts.
-/

namespace RuleDepot.Archive

/-- What the directory says about a file. -/
structure ZipEntry where
  name : String
  /-- The name as it is written. -/
  rawName : ByteArray
  comment : String
  /-- Whether it takes a password to read the file. -/
  isLocked : Bool
  /-- How the file is packed. -/
  method : Nat
  checksum : Nat
  size : Nat
  packedSize : Nat
  /-- Where the file begins in the archive. -/
  start : Nat

/-- Why reading extra fields ends early. -/
inductive ExtraFault where
  /-- The bytes end inside a field. -/
  | cutOff
  /-- A field breaks the rules of its kind. -/
  | broken
  deriving DecidableEq, Repr

/-- A reader of extra fields, which change what is known of a file. -/
abbrev ExtraReader : Type → Type :=
  ExceptT ExtraFault (StateM (ZipEntry × List UInt8))

namespace ExtraReader

/-- Takes some bytes. -/
def take (count : Nat) : ExtraReader (List UInt8) := do
  let (e, bytes) ← get
  if bytes.length < count then throw .cutOff
  set (e, bytes.drop count)
  return bytes.take count

/-- Takes a number of some bytes. -/
def number (width : Nat) : ExtraReader Nat := do
  return littleEndian (← take width)

/-- Changes what is known of the file. -/
def change (f : ZipEntry → ZipEntry) : ExtraReader Unit :=
  modify fun (e, bytes) => (f e, bytes)

/-- Fails unless a rule is kept. -/
def demand (rule : Bool) : ExtraReader Unit :=
  if rule then pure () else throw .broken

/-- Takes a number of eight bytes, if it is there; gives the bytes taken. -/
def wideNumber (isThere : Bool) (put : Nat → ZipEntry → ZipEntry) : ExtraReader Nat := do
  if isThere then
    change (put (← number 8))
    return 8
  else return 0

/-- What stands in the directory for a number that does not fit. -/
def fieldLimit : Nat := 0xFFFFFFFF

/-- The numbers that do not fit into the directory; all of them, if there is room for all. -/
def wideNumbers (length : Nat) : ExtraReader Unit := do
  let (e, _) ← get
  let all := 24 ≤ length
  let first ← wideNumber (all || e.size = fieldLimit) fun size e => { e with size }
  let second ← wideNumber (all || e.packedSize = fieldLimit) fun packedSize e =>
    { e with packedSize }
  let third ← wideNumber (all || e.start = fieldLimit) fun start e => { e with start }
  let taken := first + second + third
  demand (taken ≤ length)
  let _ ← take (length - taken)

/-- Times of one file system: four bytes, then one attribute with three times. -/
def attributeTimes (length : Nat) : ExtraReader Unit := do
  demand (length = 32)
  let _ ← take 4
  demand ((← number 2) = 1)
  demand ((← number 2) = 24)
  let _ ← take 24

/-- Times in seconds, one for each bit that is set in a byte, or a single one whatever the byte is. -/
def flaggedTimes (length : Nat) : ExtraReader Unit := do
  let flags ← number 1
  let times := ((List.range 8).filter flags.testBit).length
  demand (length = 5 || length = 1 + 4 * times)
  let _ ← take (length - 1)

/-- How a file that takes a password is locked and packed. -/
def lock (length : Nat) : ExtraReader Unit := do
  demand (length = 7)
  let version ← number 2
  let maker ← number 2
  let strength ← number 1
  let method ← number 2
  demand (maker = 0x4541 && (version = 1 || version = 2) && 1 ≤ strength && strength ≤ 3)
  change fun e => { e with isLocked := true, method }

/-- A text in Unicode in place of another one, whose checksum it has. -/
def unicode (length : Nat) (other : ByteArray) : ExtraReader ByteArray := do
  let _ ← take 1
  let checksum ← number 4
  demand (5 ≤ length)
  let text ← take (length - 5)
  demand ((Digest.crc32 other).toNat = checksum)
  return ⟨text.toArray⟩

/-- The text of some bytes, all of which have to spell characters. -/
def spelled (bytes : ByteArray) : ExtraReader String :=
  match String.fromUTF8? bytes with
  | some s => pure s
  | none => throw .broken

/-- Reads one field; kinds that are not known are passed over. -/
def field : ExtraReader Unit := do
  let kind ← number 2
  let length ← number 2
  let (e, _) ← get
  if kind = 0x0001 then wideNumbers length
  else if kind = 0x000a then attributeTimes length
  else if kind = 0x9901 then lock length
  else if kind = 0x5455 then flaggedTimes length
  else if kind = 0x6375 then
    let comment ← spelled (← unicode length e.comment.toUTF8)
    change fun e => { e with comment }
  else if kind = 0x7075 then
    let rawName ← unicode length e.rawName
    let name ← spelled rawName
    change fun e => { e with name, rawName }
  else
    let _ ← take length

/-- Reads fields up to the end.  A field takes at least one byte, so their number bounds the
work. -/
def fields : Nat → ExtraReader Unit
  | 0 => return
  | fuel + 1 => do
    let (_, bytes) ← get
    if bytes.isEmpty then return
    else
      field
      fields fuel

end ExtraReader

/-- An entry with what its extra fields add, unless one of them is broken. -/
def ZipEntry.withExtra? (e : ZipEntry) (extra : List UInt8) : Option ZipEntry :=
  match (ExtraReader.fields extra.length).run.run (e, extra) with
  | (.error .broken, _) => none
  | (_, (e, _)) => some e

/-- The method of files whose packing the field for locks gives. -/
def lockedMethod : Nat := 99

/-- Reads the entry of the directory at a place, and gives the place behind it. -/
def ZipEntry.at? (bytes : ByteArray) (place : Nat) : Option (ZipEntry × Nat) := do
  if !marked bytes place entryMark then none
  let flags ← numberAt? bytes (place + 8) 2
  let nameSize ← numberAt? bytes (place + 28) 2
  let extraSize ← numberAt? bytes (place + 30) 2
  let commentSize ← numberAt? bytes (place + 32) 2
  let behindName := place + 46 + nameSize
  let behindExtra := behindName + extraSize
  let behind := behindExtra + commentSize
  if bytes.size < behind then none
  let rawName := bytes.extract (place + 46) behindName
  let rawComment := bytes.extract behindExtra behind
  let decode (raw : ByteArray) : String :=
    if flags.testBit 11 then Text.repaired raw else CodePage.decode raw.data.toList
  let e : ZipEntry :=
    { name := decode rawName, rawName, comment := decode rawComment, isLocked := flags.testBit 0,
      method := ← numberAt? bytes (place + 10) 2,
      checksum := ← numberAt? bytes (place + 16) 4,
      packedSize := ← numberAt? bytes (place + 20) 4,
      size := ← numberAt? bytes (place + 24) 4,
      start := ← numberAt? bytes (place + 42) 4 }
  let e ← e.withExtra? (bytes.extract behindName behindExtra).data.toList
  if e.method = lockedMethod && !e.isLocked then none
  return (e, behind)

end RuleDepot.Archive
