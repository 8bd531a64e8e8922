import RuleDepot.Digest.Hex
/-!
SHA-256 over byte strings.  The chaining state is a record of eight words, so a digest has its
width by construction, and `length_sha256Hex` and `isLowerHex_of_mem_sha256Hex` say that its
text is always sixty-four lower-case base-sixteen digits.
-/

namespace RuleDepot.Digest

/-- The eight words that a block is folded into. -/
structure Chain where
  a : UInt32
  b : UInt32
  c : UInt32
  d : UInt32
  e : UInt32
  f : UInt32
  g : UInt32
  h : UInt32
  deriving DecidableEq

namespace Sha256

/-- The fractional parts of the square roots of the first eight primes. -/
def start : Chain :=
  ⟨0x6a09e667, 0xbb67ae85, 0x3c6ef372, 0xa54ff53a, 0x510e527f, 0x9b05688c, 0x1f83d9ab, 0x5be0cd19⟩

/-- The fractional parts of the cube roots of the first sixty-four primes. -/
def roundKeys : Array UInt32 := #[
  0x428a2f98, 0x71374491, 0xb5c0fbcf, 0xe9b5dba5, 0x3956c25b, 0x59f111f1, 0x923f82a4, 0xab1c5ed5,
  0xd807aa98, 0x12835b01, 0x243185be, 0x550c7dc3, 0x72be5d74, 0x80deb1fe, 0x9bdc06a7, 0xc19bf174,
  0xe49b69c1, 0xefbe4786, 0x0fc19dc6, 0x240ca1cc, 0x2de92c6f, 0x4a7484aa, 0x5cb0a9dc, 0x76f988da,
  0x983e5152, 0xa831c66d, 0xb00327c8, 0xbf597fc7, 0xc6e00bf3, 0xd5a79147, 0x06ca6351, 0x14292967,
  0x27b70a85, 0x2e1b2138, 0x4d2c6dfc, 0x53380d13, 0x650a7354, 0x766a0abb, 0x81c2c92e, 0x92722c85,
  0xa2bfe8a1, 0xa81a664b, 0xc24b8b70, 0xc76c51a3, 0xd192e819, 0xd6990624, 0xf40e3585, 0x106aa070,
  0x19a4c116, 0x1e376c08, 0x2748774c, 0x34b0bcb5, 0x391c0cb3, 0x4ed8aa4a, 0x5b9cca4f, 0x682e6ff3,
  0x748f82ee, 0x78a5636f, 0x84c87814, 0x8cc70208, 0x90befffa, 0xa4506ceb, 0xbef9a3f7, 0xc67178f2]

/-- Rotation to the right. -/
def rotate (x n : UInt32) : UInt32 :=
  (x >>> n) ||| (x <<< (32 - n))

/-- The big-endian word at a byte position. -/
def wordAt (data : ByteArray) (i : Nat) : UInt32 :=
  (data.get! i).toUInt32 <<< 24 ||| (data.get! (i + 1)).toUInt32 <<< 16 |||
    (data.get! (i + 2)).toUInt32 <<< 8 ||| (data.get! (i + 3)).toUInt32

/-- The next word of the message schedule, from words 16, 15, 7 and 2 places back. -/
def extend (words : Array UInt32) : Array UInt32 :=
  let n := words.size
  let x := words.getD (n - 15) 0
  let y := words.getD (n - 2) 0
  let s0 := rotate x 7 ^^^ rotate x 18 ^^^ (x >>> 3)
  let s1 := rotate y 17 ^^^ rotate y 19 ^^^ (y >>> 10)
  words.push (words.getD (n - 16) 0 + s0 + words.getD (n - 7) 0 + s1)

/-- The message schedule of the block that begins at a byte position. -/
def schedule (data : ByteArray) (offset : Nat) : Array UInt32 :=
  let first := Nat.fold 16 (fun i _ words => words.push (wordAt data (offset + 4 * i)))
    (Array.mkEmpty 64)
  Nat.fold 48 (fun _ _ words => extend words) first

/-- One round of the compression function. -/
def step (s : Chain) (key word : UInt32) : Chain :=
  let s1 := rotate s.e 6 ^^^ rotate s.e 11 ^^^ rotate s.e 25
  let choice := (s.e &&& s.f) ^^^ ((~~~ s.e) &&& s.g)
  let t1 := s.h + s1 + choice + key + word
  let s0 := rotate s.a 2 ^^^ rotate s.a 13 ^^^ rotate s.a 22
  let majority := (s.a &&& s.b) ^^^ (s.a &&& s.c) ^^^ (s.b &&& s.c)
  ⟨t1 + s0 + majority, s.a, s.b, s.c, s.d + t1, s.e, s.f, s.g⟩

/-- Folds the block that begins at a byte position into the state. -/
def compress (s : Chain) (data : ByteArray) (offset : Nat) : Chain :=
  let words := schedule data offset
  let r := Nat.fold 64 (fun i _ t => step t (roundKeys.getD i 0) (words.getD i 0)) s
  ⟨s.a + r.a, s.b + r.b, s.c + r.c, s.d + r.d, s.e + r.e, s.f + r.f, s.g + r.g, s.h + r.h⟩

/-- The message, a one bit, zeros up to eight bytes short of a whole block, and the length. -/
def padded (message : ByteArray) : ByteArray :=
  let zeros := (119 - message.size % 64) % 64
  let bits := 8 * message.size
  let marked := Nat.fold zeros (fun _ _ bytes => bytes.push 0) (message.push 0x80)
  Nat.fold 8 (fun i _ bytes => bytes.push (bits >>> (8 * (7 - i))).toUInt8) marked

/-- The state after all blocks. -/
def run (message : ByteArray) : Chain :=
  let data := padded message
  Nat.fold (data.size / 64) (fun i _ s => compress s data (64 * i)) start

end Sha256

/-- The digits of a state. -/
def Chain.hexChars (s : Chain) : List Char :=
  [s.a, s.b, s.c, s.d, s.e, s.f, s.g, s.h].flatMap fun word => fixedHex 8 word.toNat

theorem Chain.length_hexChars (s : Chain) : s.hexChars.length = 64 := by
  simp [hexChars]

theorem Chain.isLowerHex_of_mem_hexChars {s : Chain} {c : Char} (h : c ∈ s.hexChars) :
    isLowerHex c = true := by
  obtain ⟨word, _, hc⟩ := List.mem_flatMap.1 h
  exact isLowerHex_of_mem_fixedHex hc

/-- The SHA-256 digest of a byte string in base sixteen. -/
def sha256Hex (message : ByteArray) : String :=
  String.ofList (Sha256.run message).hexChars

theorem length_sha256Hex (message : ByteArray) : (sha256Hex message).toList.length = 64 := by
  simp [sha256Hex, Chain.length_hexChars]

theorem isLowerHex_of_mem_sha256Hex {message : ByteArray} {c : Char}
    (h : c ∈ (sha256Hex message).toList) : isLowerHex c = true := by
  simp only [sha256Hex, String.toList_ofList] at h
  exact Chain.isLowerHex_of_mem_hexChars h

end RuleDepot.Digest
