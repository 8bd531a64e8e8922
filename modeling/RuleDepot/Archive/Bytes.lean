/-!
Numbers and marks in the bytes of an archive.  Numbers stand lowest byte first, and each record
begins with a mark of its own.
-/

namespace RuleDepot.Archive

/-- The number that some bytes write, lowest byte first. -/
def littleEndian (bytes : List UInt8) : Nat :=
  bytes.foldr (fun b n => 256 * n + b.toNat) 0

/-- The number of some width at a place, if the bytes reach that far. -/
def numberAt? (bytes : ByteArray) (place width : Nat) : Option Nat :=
  if place + width ≤ bytes.size then
    some (littleEndian (bytes.extract place (place + width)).data.toList)
  else none

/-- Whether a mark stands at a place. -/
def marked (bytes : ByteArray) (place : Nat) : List UInt8 → Bool
  | [] => true
  | b :: mark => bytes[place]? == some b && marked bytes (place + 1) mark

/-- The places of a mark in front of some place, last first. -/
def marksBefore (bytes : ByteArray) (mark : List UInt8) : Nat → List Nat
  | 0 => []
  | place + 1 =>
    if marked bytes place mark then place :: marksBefore bytes mark place
    else marksBefore bytes mark place

/-- The places of a mark among some places from a first one on. -/
def marksFrom (bytes : ByteArray) (mark : List UInt8) (place : Nat) : Nat → List Nat
  | 0 => []
  | count + 1 =>
    if marked bytes place mark then place :: marksFrom bytes mark (place + 1) count
    else marksFrom bytes mark (place + 1) count

/-- The places of a mark from a first place on that end at the latest at a last one. -/
def marksBetween (bytes : ByteArray) (mark : List UInt8) (first last : Nat) : List Nat :=
  marksFrom bytes mark first (last + 1 - (first + mark.length))

/-- The mark of the record behind the directory. -/
def endMark : List UInt8 := [0x50, 0x4b, 0x05, 0x06]

/-- The mark of the record behind the directory of a large archive. -/
def wideEndMark : List UInt8 := [0x50, 0x4b, 0x06, 0x06]

/-- The mark of the record that says where the one behind the directory of a large archive is. -/
def locatorMark : List UInt8 := [0x50, 0x4b, 0x06, 0x07]

/-- The mark of an entry of the directory. -/
def entryMark : List UInt8 := [0x50, 0x4b, 0x01, 0x02]

/-- The mark in front of a file. -/
def fileMark : List UInt8 := [0x50, 0x4b, 0x03, 0x04]

end RuleDepot.Archive
