/-!
Expanding deflated data.  The data is a sequence of bits, lowest bit of each byte first, and holds
blocks: stored bytes, or literals and copies of earlier output in a prefix code.  A prefix code is
given by the lengths of its words; words of one length are numbered in the order of their symbols,
behind all shorter words.  Data that breaks a rule of the format has no expansion.
-/

namespace RuleDepot.Archive

/-- The bits of a byte, lowest first. -/
def bitsOfByte (b : UInt8) : List Bool :=
  (List.range 8).map b.toNat.testBit

/-- The number of some bits, lowest first. -/
def bitsValue (bits : List Bool) : Nat :=
  bits.foldr (fun bit n => 2 * n + bit.toNat) 0

/-- What an expansion still has to read. -/
abbrev BitReader : Type → Type :=
  StateT (List Bool) Option

namespace BitReader

/-- Reads a number of some width, lowest bit first. -/
def number (width : Nat) : BitReader Nat := do
  let bits := (← get).take width
  if bits.length = width then
    modify (·.drop width)
    return bitsValue bits
  else failure

/-- Reads several numbers of one width. -/
def numbers (width : Nat) : Nat → BitReader (List Nat)
  | 0 => return []
  | count + 1 => do
    let first ← number width
    return first :: (← numbers width count)

/-- Drops what is left of a byte that was begun. -/
def align : BitReader Unit :=
  modify fun bits => bits.drop (bits.length % 8)

end BitReader

/-- A prefix code: for each length from one on, the symbols with words of that length. -/
abbrev PrefixCode : Type :=
  List (List Nat)

namespace PrefixCode

/-- The length of the longest words. -/
def maxLength : Nat := 15

/-- The code in which each symbol has a word of the given length, or none if that is zero. -/
def ofLengths (lengths : List Nat) : PrefixCode :=
  (List.range maxLength).map fun n =>
    (lengths.zipIdx.filter fun (length, _) => length = n + 1).map (·.2)

/-- How many words of the longest length the words of all lengths stand for. -/
def weight (code : PrefixCode) : Nat :=
  code.zipIdx.foldl
    (fun total (symbols, n) => total + symbols.length * Nat.pow 2 (maxLength - (n + 1))) 0

/-- Whether the words leave no room for another one and need no more than there is. -/
def isComplete (code : PrefixCode) : Bool :=
  code.weight = Nat.pow 2 maxLength

/-- Whether the only word is one bit long. -/
def isSingle (code : PrefixCode) : Bool :=
  match code with
  | [_] :: longer => longer.all List.isEmpty
  | _ => false

/-- Whether there are no words. -/
def isEmpty (code : PrefixCode) : Bool :=
  code.all List.isEmpty

/-- Reads a word.  `word` is the number of the bits read so far, and `first` that of the first word
of the length to come. -/
def symbolFrom (word first : Nat) : PrefixCode → BitReader Nat
  | [] => failure
  | symbols :: longer => do
    let word := 2 * word + (← BitReader.number 1)
    match symbols[word - first]? with
    | some symbol => return symbol
    | none => symbolFrom word (2 * (first + symbols.length)) longer

/-- Reads a symbol. -/
def symbol (code : PrefixCode) : BitReader Nat :=
  symbolFrom 0 0 code

end PrefixCode

/-- The least length of the copies that a symbol stands for, and how many bits more it takes. -/
def copyLengths : List (Nat × Nat) :=
  [(3, 0), (4, 0), (5, 0), (6, 0), (7, 0), (8, 0), (9, 0), (10, 0), (11, 1), (13, 1), (15, 1),
    (17, 1), (19, 2), (23, 2), (27, 2), (31, 2), (35, 3), (43, 3), (51, 3), (59, 3), (67, 4),
    (83, 4), (99, 4), (115, 4), (131, 5), (163, 5), (195, 5), (227, 5), (258, 0)]

/-- The least distance that a symbol stands for, and how many bits more it takes. -/
def copyDistances : List (Nat × Nat) :=
  [(1, 0), (2, 0), (3, 0), (4, 0), (5, 1), (7, 1), (9, 2), (13, 2), (17, 3), (25, 3), (33, 4),
    (49, 4), (65, 5), (97, 5), (129, 6), (193, 6), (257, 7), (385, 7), (513, 8), (769, 8),
    (1025, 9), (1537, 9), (2049, 10), (3073, 10), (4097, 11), (6145, 11), (8193, 12), (12289, 12),
    (16385, 13), (24577, 13)]

/-- Reads the number that a symbol and the bits behind it stand for. -/
def extended (table : List (Nat × Nat)) (symbol : Nat) : BitReader Nat := do
  match table[symbol]? with
  | none => failure
  | some (least, width) => return least + (← BitReader.number width)

/-- Appends bytes from some distance back, one at a time, so that they may be new ones. -/
def copyBack (distance : Nat) : Nat → Array UInt8 → Option (Array UInt8)
  | 0, out => some out
  | count + 1, out =>
    if distance ≤ out.size then
      match out[out.size - distance]? with
      | some byte => copyBack distance count (out.push byte)
      | none => none
    else none

/-- The symbol at the end of a block. -/
def endSymbol : Nat := 256

/-- Reads literals and copies up to the end of a block. -/
def codedBlock (literals distances : PrefixCode) :
    Nat → Array UInt8 → BitReader (Array UInt8)
  | 0, _ => failure
  | fuel + 1, out => do
    let symbol ← literals.symbol
    if symbol < 256 then codedBlock literals distances fuel (out.push (UInt8.ofNat symbol))
    else if symbol = endSymbol then return out
    else
      let length ← extended copyLengths (symbol - 257)
      let distance ← extended copyDistances (← distances.symbol)
      match copyBack distance length out with
      | some out => codedBlock literals distances fuel out
      | none => failure

/-- Reads a block of bytes as they are. -/
def storedBlock (out : Array UInt8) : BitReader (Array UInt8) := do
  BitReader.align
  let length ← BitReader.number 16
  let complement ← BitReader.number 16
  if length + complement = 0xFFFF then
    return out ++ ((← BitReader.numbers 8 length).map UInt8.ofNat).toArray
  else failure

/-- The code for literals in blocks that bring none. -/
def fixedLiterals : PrefixCode :=
  .ofLengths (List.replicate 144 8 ++ List.replicate 112 9 ++ List.replicate 24 7 ++
    List.replicate 8 8)

/-- The code for distances in blocks that bring none. -/
def fixedDistances : PrefixCode :=
  .ofLengths (List.replicate 30 5)

/-- The order in which the lengths of the code for lengths stand. -/
def lengthOrder : List Nat :=
  [16, 17, 18, 0, 8, 7, 9, 6, 10, 5, 11, 4, 12, 3, 13, 2, 14, 1, 15]

/-- Reads code lengths up to a total, kept last first.  Three symbols repeat the last length or
zero. -/
def codeLengths (code : PrefixCode) (total : Nat) : Nat → List Nat → BitReader (List Nat)
  | 0, _ => failure
  | fuel + 1, read =>
    if total < read.length then failure
    else if read.length = total then return read.reverse
    else do
      let symbol ← code.symbol
      if symbol < 16 then codeLengths code total fuel (symbol :: read)
      else
        let (again, value?) ← match symbol with
          | 16 => do pure (3 + (← BitReader.number 2), read.head?)
          | 17 => do pure (3 + (← BitReader.number 3), some 0)
          | _ => do pure (11 + (← BitReader.number 7), some 0)
        match value? with
        | some value => codeLengths code total fuel (List.replicate again value ++ read)
        | none => failure

/-- Reads the codes of a block that brings its own.  A code has to be complete, except that one word
of one bit is enough, and that there may be no word for distances. -/
def ownCodes : BitReader (PrefixCode × PrefixCode) := do
  let literalCount := 257 + (← BitReader.number 5)
  let distanceCount := 1 + (← BitReader.number 5)
  if 286 < literalCount || 30 < distanceCount then failure
  let given ← BitReader.numbers 3 (4 + (← BitReader.number 4))
  let lengthOf (symbol : Nat) : Nat := ((lengthOrder.zip given).lookup symbol).getD 0
  let lengthCode := PrefixCode.ofLengths ((List.range 19).map lengthOf)
  if !lengthCode.isComplete then failure
  let total := literalCount + distanceCount
  let lengths ← codeLengths lengthCode total (total + 1) []
  let literals := PrefixCode.ofLengths (lengths.take literalCount)
  let distances := PrefixCode.ofLengths (lengths.drop literalCount)
  if lengths[endSymbol]?.getD 0 ≠ 0 && (literals.isComplete || literals.isSingle) &&
      (distances.isComplete || distances.isSingle || distances.isEmpty) then
    return (literals, distances)
  else failure

/-- Reads blocks up to the last one.  Each symbol takes at least one bit, so the number of bits
bounds the work. -/
def blocks : Nat → Array UInt8 → BitReader (Array UInt8)
  | 0, _ => failure
  | fuel + 1, out => do
    let isLast ← BitReader.number 1
    let out ← match (← BitReader.number 2) with
      | 0 => storedBlock out
      | 1 => do codedBlock fixedLiterals fixedDistances (← get).length out
      | 2 => do
        let (literals, distances) ← ownCodes
        codedBlock literals distances (← get).length out
      | _ => failure
    if isLast = 1 then return out else blocks fuel out

/-- Expands deflated data. -/
def inflate (data : ByteArray) : Option ByteArray :=
  let bits := data.data.toList.flatMap bitsOfByte
  ((blocks bits.length #[]).run bits).map fun (out, _) => ⟨out⟩

end RuleDepot.Archive
