import RuleDepot.Text.Utf8
import RuleDepot.Text.Basic
/-!
The tokens of JSON.  The lexer reads one character at a time and never goes back; at the first
character that begins no token it writes a `bad` token and stops, so a reader sees everything in
front of the fault.  The text of a string is kept as written and read by `unescape` only where a
text is wanted; so bytes that spell no character are no fault in a string that nobody reads.
-/

namespace RuleDepot.Json

/-- A place in the text, counted from one. -/
structure Mark where
  line : Nat
  column : Nat
  deriving DecidableEq, Repr, Inhabited

namespace Mark

/-- The place behind a character. -/
def after (m : Mark) (c : Char) : Mark :=
  if c = '\n' then ⟨m.line + 1, 1⟩ else ⟨m.line, m.column + 1⟩

end Mark

/-- The forms of tokens. -/
inductive TokenKind where
  | openBrace
  | closeBrace
  | openBracket
  | closeBracket
  | colon
  | comma
  /-- A string, as written between its quotes. -/
  | text (raw : List (Option Char))
  | number (digits : List Char)
  | bool (b : Bool)
  | null
  /-- The end of the text. -/
  | finish
  /-- Something that is no token; nothing follows. -/
  | bad
  deriving DecidableEq, Repr

/-- A token and where it begins. -/
structure Token where
  kind : TokenKind
  mark : Mark
  deriving DecidableEq, Repr

/-- What the lexer is in the middle of; characters read so far are kept last first. -/
inductive LexState where
  | between
  | text (start : Mark) (read : List (Option Char))
  /-- Behind a backslash. -/
  | escape (start : Mark) (read : List (Option Char))
  /-- Inside a code point, with some digits to come. -/
  | codePoint (start : Mark) (left : Nat) (read : List (Option Char))
  | number (start : Mark) (read : List Char)
  | word (start : Mark) (read : List Char)

/-- Blanks between tokens. -/
def isGap (c : Char) : Bool :=
  c == ' ' || c == '\n' || c == '\t' || c == '\r'

/-- Characters that a number may be made of. -/
def isNumberChar (c : Char) : Bool :=
  Text.isDigit c || c == '-' || c == '+' || c == '.' || c == 'e' || c == 'E'

/-- Characters that a word may be made of. -/
def isWordChar (c : Char) : Bool :=
  'a' ≤ c && c ≤ 'z'

/-- Base-sixteen digits of either case. -/
def isHexChar (c : Char) : Bool :=
  Text.isDigit c || ('a' ≤ c && c ≤ 'f') || ('A' ≤ c && c ≤ 'F')

/-- The token of a mark of punctuation. -/
def punctuation? (c : Char) : Option TokenKind :=
  if c = '\x7b' then some .openBrace
  else if c = '\x7d' then some .closeBrace
  else if c = '[' then some .openBracket
  else if c = ']' then some .closeBracket
  else if c = ':' then some .colon
  else if c = ',' then some .comma
  else none

/-- Whether a text is an exponent or nothing. -/
def isExponent : List Char → Bool
  | [] => true
  | e :: rest =>
    (e == 'e' || e == 'E') &&
      (let digits := match rest with
        | '+' :: digits => digits
        | '-' :: digits => digits
        | digits => digits
      !digits.isEmpty && digits.all Text.isDigit)

/-- Whether a text is a fraction and an exponent, either of which may be missing. -/
def isFraction : List Char → Bool
  | '.' :: rest =>
    !(rest.takeWhile Text.isDigit).isEmpty && isExponent (rest.dropWhile Text.isDigit)
  | rest => isExponent rest

/-- Whether a text is a number without its sign. -/
def isUnsigned (s : List Char) : Bool :=
  let whole := s.takeWhile Text.isDigit
  !whole.isEmpty && (whole.length == 1 || whole.head? != some '0') &&
    isFraction (s.dropWhile Text.isDigit)

/-- Whether a text is a number. -/
def isNumber : List Char → Bool
  | '-' :: rest => isUnsigned rest
  | rest => isUnsigned rest

/-- The token of a run of number characters. -/
def numberToken (digits : List Char) : TokenKind :=
  if isNumber digits then .number digits else .bad

/-- The token of a run of letters. -/
def wordToken (word : List Char) : TokenKind :=
  if word = "true".toList then .bool true
  else if word = "false".toList then .bool false
  else if word = "null".toList then .null
  else .bad

/-- What a character does that stands between tokens: the token that it is, and what the lexer is
in the middle of behind it, unless it is bad. -/
def enter (m : Mark) (c : Char) : List Token × Option LexState :=
  if isGap c then ([], some .between)
  else match punctuation? c with
    | some kind => ([⟨kind, m⟩], some .between)
    | none =>
      if c = '"' then ([], some (.text m []))
      else if Text.isDigit c || c == '-' then ([], some (.number m [c]))
      else if isWordChar c then ([], some (.word m [c]))
      else ([⟨.bad, m⟩], none)

/-- Ends a token in front of a character that does not belong to it. -/
def leave (token : Token) (m : Mark) (c : Char) : List Token × Option LexState :=
  let (entered, next) := enter m c
  (token :: entered, next)

/-- What a character does in a state. -/
def step (m : Mark) (state : LexState) (c : Char) : List Token × Option LexState :=
  match state with
  | .between => enter m c
  | .text start read =>
    if c = '"' then ([⟨.text read.reverse, start⟩], some .between)
    else if c = '\\' then ([], some (.escape start (some c :: read)))
    else if c.val < 0x20 then ([⟨.bad, m⟩], none)
    else ([], some (.text start (some c :: read)))
  | .escape start read =>
    if "\"\\/bfnrt".toList.contains c then ([], some (.text start (some c :: read)))
    else if c = 'u' then ([], some (.codePoint start 3 (some c :: read)))
    else ([⟨.bad, m⟩], none)
  | .codePoint start left read =>
    if isHexChar c then
      match left with
      | 0 => ([], some (.text start (some c :: read)))
      | left + 1 => ([], some (.codePoint start left (some c :: read)))
    else ([⟨.bad, m⟩], none)
  | .number start read =>
    if isNumberChar c then ([], some (.number start (c :: read)))
    else leave ⟨numberToken read.reverse, start⟩ m c
  | .word start read =>
    if isWordChar c then ([], some (.word start (c :: read)))
    else leave ⟨wordToken read.reverse, start⟩ m c

/-- What a byte that spells no character does in a state: it may stand in a string. -/
def stepStray (m : Mark) : LexState → List Token × Option LexState
  | .text start read => ([], some (.text start (none :: read)))
  | _ => ([⟨.bad, m⟩], none)

/-- What the end of the text does in a state. -/
def flush (m : Mark) : LexState → List Token
  | .between => [⟨.finish, m⟩]
  | .text start _ => [⟨.bad, start⟩]
  | .escape start _ => [⟨.bad, start⟩]
  | .codePoint start _ _ => [⟨.bad, start⟩]
  | .number start read => [⟨numberToken read.reverse, start⟩, ⟨.finish, m⟩]
  | .word start read => [⟨wordToken read.reverse, start⟩, ⟨.finish, m⟩]

/-- The tokens from a state on. -/
def lexFrom (m : Mark) (state : LexState) : List (Option Char) → List Token
  | [] => flush m state
  | some c :: rest =>
    match step m state c with
    | (out, some next) => out ++ lexFrom (m.after c) next rest
    | (out, none) => out
  | none :: rest =>
    match stepStray m state with
    | (out, some next) => out ++ lexFrom (m.after ' ') next rest
    | (out, none) => out

/-- The tokens of a text, in which some bytes may spell no character. -/
def tokens (units : List (Option Char)) : List Token :=
  lexFrom ⟨1, 1⟩ .between units

/-- The value of a base-sixteen digit of either case. -/
def hexValue (c : Char) : Nat :=
  if Text.isDigit c then c.toNat - 48
  else if 'a' ≤ c && c ≤ 'f' then c.toNat - 87
  else c.toNat - 55

/-- The number written by base-sixteen digits. -/
def hexNumber (digits : List Char) : Nat :=
  digits.foldl (fun n c => 16 * n + hexValue c) 0

/-- The character of a one-letter escape. -/
def escapedChar (c : Char) : Char :=
  if c = 'b' then '\x08'
  else if c = 'f' then '\x0c'
  else if c = 'n' then '\n'
  else if c = 'r' then '\r'
  else if c = 't' then '\t'
  else c

/-- The first half of a character beyond the first plane. -/
def isHighHalf (n : Nat) : Bool :=
  0xD800 ≤ n && n ≤ 0xDBFF

/-- The second half of such a character. -/
def isLowHalf (n : Nat) : Bool :=
  0xDC00 ≤ n && n ≤ 0xDFFF

/-- Reads the text of a string; a half character on its own makes it unreadable. -/
def unescape : List Char → Option (List Char)
  | [] => some []
  | '\\' :: 'u' :: a :: b :: c :: d :: rest =>
    let n := hexNumber [a, b, c, d]
    if isHighHalf n then
      match rest with
      | '\\' :: 'u' :: e :: f :: g :: h :: rest =>
        let k := hexNumber [e, f, g, h]
        if isLowHalf k then
          (unescape rest).map (Char.ofNat (0x10000 + (n - 0xD800) * 0x400 + (k - 0xDC00)) :: ·)
        else none
      | _ => none
    else if isLowHalf n then none
    else (unescape rest).map (Char.ofNat n :: ·)
  | '\\' :: c :: rest => (unescape rest).map (escapedChar c :: ·)
  | c :: rest => (unescape rest).map (c :: ·)

end RuleDepot.Json
