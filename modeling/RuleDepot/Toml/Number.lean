import RuleDepot.Text.Basic
import RuleDepot.Toml.Value
/-!
TOML numbers.  A number may have underscores between its digits.  Which words are taken for numbers
is a weaker test than which of them have a value: `1_a` and `0x` are numbers that nothing can be
read from.
-/

namespace RuleDepot.Toml

/-- Base-sixteen digits of either case. -/
def isHexDigit (c : Char) : Bool :=
  Text.isDigit c || ('a' ≤ c && c ≤ 'f') || ('A' ≤ c && c ≤ 'F')

/-- Takes the sign off a number: whether it is negative, and the rest. -/
def unsigned : List Char → Bool × List Char
  | '+' :: rest => (false, rest)
  | '-' :: rest => (true, rest)
  | rest => (false, rest)

/-- Whether underscores stand between digits only.  The end is not looked at, nor a sign in front. -/
def underscoresFit (digit : Char → Bool) (s : List Char) : Bool :=
  match Text.splitChars (· == '_') s with
  | [] => true
  | [_] => true
  | first :: more =>
    !first.isEmpty &&
      more.all (fun part => (part.head?.map digit).getD false) &&
      (first :: more.dropLast).all fun part =>
        part.length ≤ 1 || (part.getLast?.map digit).getD false

/-- The number written in some base. -/
def valueIn (base : Nat) (digits : List Char) : Nat :=
  digits.foldl
    (fun n c => base * n + (if Text.isDigit c then c.toNat - 48
      else if 'a' ≤ c then c.toNat - 87 else c.toNat - 55)) 0

/-- The whole number that some digits, underscores and a sign write. -/
def decimal? (s : List Char) : Option Int :=
  let (negative, digits) := unsigned (s.filter (· != '_'))
  if digits.isEmpty || !digits.all Text.isDigit then none
  else some (if negative then -(valueIn 10 digits : Int) else valueIn 10 digits)

/-- Reads the digits of a number in another base than ten. -/
def based? (base : Nat) (digit : Char → Bool) (s : List Char) : Option Value :=
  let digits := s.filter (· != '_')
  if !digits.all digit || !underscoresFit digit s then none
  else some (.integer (if digits.isEmpty then none else some (valueIn base digits)))

/-- Reads digits, among which underscores may stand, and says what is behind them. -/
def digits? (s : List Char) : Option (List Char × List Char) :=
  let inside (c : Char) := Text.isDigit c || c == '_'
  if (s.takeWhile inside).any Text.isDigit then some (s.takeWhile inside, s.dropWhile inside)
  else none

/-- Whether a text is the exponent of a number, or empty. -/
def isExponent : List Char → Bool
  | [] => true
  | e :: rest =>
    (e == 'e' || e == 'E') &&
      match digits? (unsigned rest).2 with
      | some (_, []) => true
      | _ => false

/-- Whether a text is a number with a fraction or an exponent. -/
def isFractional (s : List Char) : Bool :=
  match digits? s with
  | none => false
  | some (whole, rest) =>
    (whole.head? != some '0' || (whole.filter Text.isDigit).length == 1) &&
      match rest with
      | '.' :: rest =>
        match digits? rest with
        | some (_, rest) => isExponent rest
        | none => false
      | _ => isExponent rest

/-- Characters that a number with a fraction or an exponent has. -/
def isFractionMark (c : Char) : Bool :=
  c == '.' || c == 'e' || c == 'E'

/-- Reads a word as a number. -/
def number? (s : List Char) : Option Value :=
  let body := (unsigned s).2
  let rest := body.dropWhile Text.isDigit
  match s with
  | '0' :: 'x' :: digits => based? 16 isHexDigit digits
  | '0' :: 'o' :: digits => based? 8 (fun c => '0' ≤ c && c ≤ '7') digits
  | '0' :: 'b' :: digits => based? 2 (fun c => c == '0' || c == '1') digits
  | _ =>
    if body = "inf".toList || body = "nan".toList then some .float
    else if rest.any isFractionMark then
      if isFractional body && underscoresFit Text.isDigit s then some .float else none
    else
      let leads := body.head? != some '0' || body.length == 1
      let isWhole := (rest.isEmpty && !body.isEmpty) || rest.head? == some '_'
      if leads && isWhole && underscoresFit isHexDigit s then some (.integer (decimal? s))
      else none

end RuleDepot.Toml
