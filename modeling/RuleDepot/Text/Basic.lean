/-!
Text as the file formats and coordinates of this library see it: the Unicode classes of blank
and control characters, trimming, splitting at separators, natural numbers in decimal, and
padding to a column.  Splitting loses nothing: `splitChars_ne_nil` and `join_splitChars` say
that there is always a piece and that the pieces with the separator between them are the text.
-/

namespace RuleDepot.Text

/-- The characters with the Unicode property White_Space. -/
def isBlank (c : Char) : Bool :=
  (9 ≤ c.val && c.val ≤ 13) || c.val == 0x20 || c.val == 0x85 || c.val == 0xA0 ||
    c.val == 0x1680 || (0x2000 ≤ c.val && c.val ≤ 0x200A) || c.val == 0x2028 ||
    c.val == 0x2029 || c.val == 0x202F || c.val == 0x205F || c.val == 0x3000

/-- The characters of the Unicode category Cc: the two blocks of control codes. -/
def isControl (c : Char) : Bool :=
  c.val < 0x20 || (0x7F ≤ c.val && c.val ≤ 0x9F)

/-- Drops the blanks at the front. -/
def trimFront (s : List Char) : List Char :=
  s.dropWhile isBlank

/-- Drops the blanks at both ends. -/
def trimChars (s : List Char) : List Char :=
  (trimFront (trimFront s).reverse).reverse

/-- Drops the blanks at both ends of a text. -/
def trim (s : String) : String :=
  String.ofList (trimChars s.toList)

/-- The pieces between separators; a text without a separator is one piece. -/
def splitChars (sep : Char → Bool) : List Char → List (List Char)
  | [] => [[]]
  | c :: rest =>
    if sep c then [] :: splitChars sep rest
    else
      match splitChars sep rest with
      | [] => [[c]]
      | piece :: pieces => (c :: piece) :: pieces

/-- The pieces between separators, as texts. -/
def split (sep : Char → Bool) (s : String) : List String :=
  (splitChars sep s.toList).map String.ofList

/-- The pieces of a text cut at every occurrence of one character. -/
def splitAt (c : Char) (s : String) : List String :=
  split (· == c) s

theorem splitChars_ne_nil (sep : Char → Bool) (s : List Char) : splitChars sep s ≠ [] := by
  cases s with
  | nil => simp [splitChars]
  | cons c rest =>
    simp only [splitChars]
    split
    · simp
    · split <;> simp

/-- No piece holds a separator. -/
theorem sep_of_mem_splitChars {sep : Char → Bool} {s piece : List Char}
    (h : piece ∈ splitChars sep s) : ∀ c ∈ piece, sep c = false := by
  induction s generalizing piece with
  | nil =>
    simp only [splitChars, List.mem_singleton] at h
    simp [h]
  | cons c rest ih =>
    simp only [splitChars] at h
    split at h
    · rcases List.mem_cons.1 h with rfl | h
      · simp
      · exact ih h
    · rename_i hc
      split at h
      · rename_i heq
        exact absurd heq (splitChars_ne_nil sep rest)
      · rename_i p ps heq
        rcases List.mem_cons.1 h with rfl | h
        · intro x hx
          rcases List.mem_cons.1 hx with rfl | hx
          · simpa using hc
          · exact ih (heq ▸ List.mem_cons_self) x hx
        · exact ih (heq ▸ List.mem_cons_of_mem _ h)

/-- The pieces with the separator between them are the text. -/
theorem join_splitChars (c : Char) (s : List Char) :
    [c].intercalate (splitChars (· == c) s) = s := by
  induction s with
  | nil => rfl
  | cons d rest ih =>
    have nonempty := splitChars_ne_nil (· == c) rest
    revert ih nonempty
    simp only [splitChars]
    generalize splitChars (· == c) rest = pieces
    intro ih nonempty
    cases pieces with
    | nil => exact absurd rfl nonempty
    | cons p ps =>
      by_cases h : d = c
      · simp_all [List.intercalate]
      · cases ps <;> simp_all [List.intercalate]

/-- The part before the first occurrence of a character and the part after it. -/
def cutFirst (c : Char) : List Char → Option (List Char × List Char)
  | [] => none
  | d :: rest =>
    if d = c then some ([], rest)
    else (cutFirst c rest).map fun (before, after) => (d :: before, after)

/-- The part before the last occurrence of a character and the part after it. -/
def cutLast (c : Char) : List Char → Option (List Char × List Char)
  | [] => none
  | d :: rest =>
    match cutLast c rest with
    | some (before, after) => some (d :: before, after)
    | none => if d = c then some ([], rest) else none

/-- Whether a text occurs in another. -/
def occursIn (needle : List Char) : List Char → Bool
  | [] => needle.isEmpty
  | c :: rest => needle.isPrefixOf (c :: rest) || occursIn needle rest

/-- An ASCII decimal digit. -/
def isDigit (c : Char) : Bool :=
  '0' ≤ c && c ≤ '9'

/-- The value of a decimal digit. -/
def digitValue (c : Char) : Nat :=
  c.toNat - '0'.toNat

/-- The number written by a list of decimal digits. -/
def decimalValue (digits : List Char) : Nat :=
  digits.foldl (fun n c => 10 * n + digitValue c) 0

/-- One more than the greatest machine word. -/
def wordLimit : Nat := Nat.pow 2 64

/-- Reads a machine word: digits with an optional plus sign in front, below the word limit. -/
def readWord (s : List Char) : Option Nat :=
  let digits := match s with
    | '+' :: rest => rest
    | rest => rest
  if digits ≠ [] ∧ digits.all isDigit ∧ decimalValue digits < wordLimit then
    some (decimalValue digits)
  else
    none

/-- As many characters from the front as fit into some bytes of UTF-8. -/
def withinBytes : Nat → List Char → List Char
  | _, [] => []
  | room, c :: rest =>
    if c.utf8Size ≤ room then c :: withinBytes (room - c.utf8Size) rest else []

/-- Of characters of one byte there are as many as bytes. -/
theorem withinBytes_eq_take {room : Nat} {s : List Char} (h : ∀ c ∈ s, c.utf8Size = 1) :
    withinBytes room s = s.take room := by
  induction s generalizing room with
  | nil => simp [withinBytes]
  | cons c rest ih =>
    have hc : c.utf8Size = 1 := h c List.mem_cons_self
    have hrest : ∀ d ∈ rest, d.utf8Size = 1 := fun d hd => h d (List.mem_cons_of_mem _ hd)
    cases room with
    | zero => simp [withinBytes, hc]
    | succ room => simp [withinBytes, hc, ih hrest]

/-- Fills up with blanks on the right to a width counted in characters. -/
def padRight (width : Nat) (s : String) : String :=
  s ++ String.ofList (List.replicate (width - s.length) ' ')

/-- Fills up with blanks on the left to a width counted in characters. -/
def padLeft (width : Nat) (s : String) : String :=
  String.ofList (List.replicate (width - s.length) ' ') ++ s

/-- Writes a number in decimal, filled up with zeros on the left. -/
def zeroPadded (width n : Nat) : String :=
  let digits := toString n
  String.ofList (List.replicate (width - digits.length) '0') ++ digits

/-- The digits of a number in base sixteen, lower case. -/
def hexDigit (n : Nat) : Char :=
  if n < 10 then Char.ofNat (n + 48) else Char.ofNat (n + 87)

/-- A number in base sixteen, lower case and without leading zeros. -/
def hexText (n : Nat) : String :=
  String.ofList (Nat.toDigits 16 n)

/-- A character as it is quoted in messages.  Printable ASCII stands for itself, backslash and
quote with a backslash in front; tab, carriage return, line feed and NUL go by their letters, and
every other character by its code point. -/
def quotedChar (c : Char) : String :=
  let inner :=
    if c = '\x00' then "\\0"
    else if c = '\t' then "\\t"
    else if c = '\r' then "\\r"
    else if c = '\n' then "\\n"
    else if c = '\\' then "\\\\"
    else if c = '\'' then "\\'"
    else if 0x20 ≤ c.val && c.val < 0x7F then String.singleton c
    else "\\u\x7b" ++ hexText c.toNat ++ "\x7d"
  "'" ++ inner ++ "'"

end RuleDepot.Text
