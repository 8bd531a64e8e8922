import RuleDepot.Text.Basic
/-!
Semantic versions: three numbers, an optional pre-release behind a dash and optional build
metadata behind a plus sign.  A release is later than its pre-releases, and build metadata counts
last.
-/

namespace RuleDepot

/-- A semantic version. -/
structure SemVer where
  major : Nat
  minor : Nat
  patch : Nat
  pre : String
  build : String
  deriving DecidableEq, Repr

namespace SemVer

/-- Reads a number without leading zeros that fits a machine word; gives what stands behind. -/
def number (s : List Char) : Option (Nat × List Char) :=
  let digits := s.takeWhile Text.isDigit
  if digits.isEmpty || (digits.length > 1 && digits.head? == some '0') then none
  else
    let value := Text.decimalValue digits
    if value < Text.wordLimit then some (value, s.dropWhile Text.isDigit) else none

/-- The characters of identifiers. -/
def isIdentifierChar (c : Char) : Bool :=
  Text.isDigit c || ('a' ≤ c && c ≤ 'z') || ('A' ≤ c && c ≤ 'Z') || c == '-'

/-- One identifier between dots.  A number in a pre-release has no leading zero. -/
def isIdentifier (leadingZeros : Bool) (part : List Char) : Bool :=
  !part.isEmpty && part.all isIdentifierChar &&
    (leadingZeros || !(part.all Text.isDigit && part.length > 1 && part.head? == some '0'))

/-- Identifiers with dots between them. -/
def isIdentifierList (leadingZeros : Bool) (s : List Char) : Bool :=
  (Text.splitChars (· == '.') s).all (isIdentifier leadingZeros)

/-- Reads what stands behind the numbers. -/
def suffix (s : List Char) : Option (String × String) :=
  match s with
  | [] => some ("", "")
  | '-' :: rest =>
    match Text.cutFirst '+' rest with
    | none => if isIdentifierList false rest then some (String.ofList rest, "") else none
    | some (pre, build) =>
      if isIdentifierList false pre && isIdentifierList true build then
        some (String.ofList pre, String.ofList build)
      else none
  | '+' :: rest => if isIdentifierList true rest then some ("", String.ofList rest) else none
  | _ => none

/-- Reads a semantic version. -/
def parse (s : List Char) : Option SemVer := do
  let (major, s) ← number s
  let '.' :: s := s | none
  let (minor, s) ← number s
  let '.' :: s := s | none
  let (patch, s) ← number s
  let (pre, build) ← suffix s
  return ⟨major, minor, patch, pre, build⟩

/-- Compares two numbers by their digits, which have no leading zeros. -/
def compareDigits (a b : List Char) : Ordering :=
  (compare a.length b.length).then (compare a b)

/-- Compares identifiers of pre-releases: numbers come before words. -/
def comparePrePart (a b : List Char) : Ordering :=
  match a.all Text.isDigit, b.all Text.isDigit with
  | true, true => compareDigits a b
  | true, false => .lt
  | false, true => .gt
  | false, false => compare a b

/-- Compares identifiers of build metadata: numbers come before words, and of two spellings of one
number the shorter is first. -/
def compareBuildPart (a b : List Char) : Ordering :=
  match a.all Text.isDigit, b.all Text.isDigit with
  | true, true =>
    (compareDigits (a.dropWhile (· == '0')) (b.dropWhile (· == '0'))).then
      (compare a.length b.length)
  | true, false => .lt
  | false, true => .gt
  | false, false => compare a b

/-- Compares two lists part by part; of two lists that agree the shorter is first. -/
def compareParts (part : List Char → List Char → Ordering) :
    List (List Char) → List (List Char) → Ordering
  | [], [] => .eq
  | [], _ :: _ => .lt
  | _ :: _, [] => .gt
  | a :: as, b :: bs => (part a b).then (compareParts part as bs)

/-- Compares pre-releases; none at all is the latest. -/
def comparePre (a b : String) : Ordering :=
  match a.isEmpty, b.isEmpty with
  | true, true => .eq
  | true, false => .gt
  | false, true => .lt
  | false, false =>
    compareParts comparePrePart (Text.splitChars (· == '.') a.toList)
      (Text.splitChars (· == '.') b.toList)

/-- Compares build metadata. -/
def compareBuild (a b : String) : Ordering :=
  compareParts compareBuildPart (Text.splitChars (· == '.') a.toList)
    (Text.splitChars (· == '.') b.toList)

/-- The order of versions: the numbers, then the pre-release, then the build metadata. -/
def order (a b : SemVer) : Ordering :=
  (compare a.major b.major).then <| (compare a.minor b.minor).then <|
    (compare a.patch b.patch).then <| (comparePre a.pre b.pre).then (compareBuild a.build b.build)

end SemVer

end RuleDepot
