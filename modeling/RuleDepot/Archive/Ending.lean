import RuleDepot.Archive.Bytes
/-!
Finding the directory of an archive.  A record behind the directory says where it begins and how
many entries it has.  In a large archive these numbers do not fit and stand in a wide record, which
a locator right in front of the record points to.  Something else may stand in front of an archive;
places are then counted from behind it, and the first mark from the place on that a record gives
says how much that is.
-/

namespace RuleDepot.Archive

/-- Where the directory of an archive is. -/
structure DirectoryPlace where
  /-- How much stands in front of the archive. -/
  shift : Nat
  start : Nat
  /-- The number of entries. -/
  count : Nat
  deriving Repr

/-- The record behind the directory. -/
structure Ending where
  place : Nat
  /-- The disk that the record is on. -/
  disk : Nat
  /-- The disk that the directory begins on. -/
  directoryDisk : Nat
  /-- The number of entries on the disk of the record. -/
  countHere : Nat
  /-- The number of all entries. -/
  count : Nat
  /-- Where the directory begins in the archive. -/
  start : Nat
  deriving Repr

/-- Where the wide record is. -/
structure Locator where
  place : Nat
  /-- The disk that the directory begins on. -/
  directoryDisk : Nat
  /-- Where the wide record begins in the archive. -/
  start : Nat
  /-- The number of disks. -/
  disks : Nat
  deriving Repr

namespace Locator

/-- The locator right in front of a place. -/
def before? (bytes : ByteArray) (behind : Nat) : Option Locator := do
  if behind < 20 || !marked bytes (behind - 20) locatorMark then none
  let place := behind - 20
  return ⟨place, ← numberAt? bytes (place + 4) 4, ← numberAt? bytes (place + 8) 8,
    ← numberAt? bytes (place + 16) 4⟩

/-- Reads a wide record, which reaches up to its locator and has the directory in front of it. -/
def ending? (bytes : ByteArray) (l : Locator) (place : Nat) : Option Ending := do
  let size ← numberAt? bytes (place + 4) 8
  let e : Ending :=
    ⟨place, ← numberAt? bytes (place + 16) 4, ← numberAt? bytes (place + 20) 4,
      ← numberAt? bytes (place + 24) 8, ← numberAt? bytes (place + 32) 8,
      ← numberAt? bytes (place + 48) 8⟩
  if size < 44 || place + 12 + size ≠ l.place || e.directoryDisk ≠ l.directoryDisk ||
      place < 46 * e.count + e.start then none
  else return e

/-- Where the directory is that the wide record stands behind. -/
def directory? (bytes : ByteArray) (l : Locator) : Option DirectoryPlace := do
  if 1 < l.disks then none
  let e ← (marksBetween bytes wideEndMark l.start l.place).findSome? (l.ending? bytes)
  let madeBy ← numberAt? bytes (e.place + 12) 2
  let needed ← numberAt? bytes (e.place + 14) 2
  if e.count < e.countHere || madeBy < needed || e.disk ≠ e.directoryDisk then none
  let shift := e.place - l.start
  return ⟨shift, e.start + shift, e.count⟩

end Locator

namespace Ending

/-- The record at a place, with its comment. -/
def at? (bytes : ByteArray) (place : Nat) : Option Ending := do
  let comment ← numberAt? bytes (place + 20) 2
  if bytes.size < place + 22 + comment then none
  return ⟨place, ← numberAt? bytes (place + 4) 2, ← numberAt? bytes (place + 6) 2,
    ← numberAt? bytes (place + 8) 2, ← numberAt? bytes (place + 10) 2,
    ← numberAt? bytes (place + 16) 4⟩

/-- Whether a number in the record is at its limit, so that a wide record may say more. -/
def isFull (e : Ending) : Bool :=
  e.count = 0xFFFF || e.start = 0xFFFFFFFF

/-- Where the directory is that the record itself points to.  In an archive without entries it is
right in front of the record. -/
def ownDirectory? (bytes : ByteArray) (e : Ending) : Option DirectoryPlace := do
  if e.disk ≠ e.directoryDisk then none
  if e.count = 0 then
    let shift := e.place - e.start
    return ⟨shift, e.start + shift, e.countHere⟩
  else
    let first ← (marksBetween bytes entryMark e.start e.place).head?
    return ⟨first - e.start, first, e.countHere⟩

/-- Where the directory is that the record stands behind. -/
def directory? (bytes : ByteArray) (e : Ending) : Option DirectoryPlace :=
  if e.isFull then
    match Locator.before? bytes e.place with
    | some l => l.directory? bytes
    | none => e.ownDirectory? bytes
  else e.ownDirectory? bytes

end Ending

/-- The records behind the directory that an archive may have, last first. -/
def endings (bytes : ByteArray) : List Ending :=
  (marksBefore bytes endMark bytes.size).filterMap (Ending.at? bytes)

end RuleDepot.Archive
