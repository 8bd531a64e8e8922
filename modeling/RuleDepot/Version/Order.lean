import RuleDepot.Version.Semantic
/-!
The order of version texts.  Two texts that can both be read as semantic versions, short ones
filled up with zeros, compare as those, and then as texts; any other pair compares segment by
segment, numbers by value.
-/

namespace RuleDepot.Version

/-- The text behind a leading `v`. -/
def withoutMark : List Char → List Char
  | 'v' :: rest => rest
  | s => s

/-- Reads a version of one, two or three numbers. -/
def lenient? (version : String) : Option SemVer :=
  let s := withoutMark version.toList
  match SemVer.parse s with
  | some v => some v
  | none =>
    let core := s.takeWhile (· != '-')
    let rest := s.dropWhile (· != '-')
    let parts := (Text.splitChars (· == '.') core).length
    if 3 ≤ parts || core.isEmpty then none
    else SemVer.parse (core ++ (List.replicate (3 - parts) ['.', '0']).flatten ++ rest)

/-- The separators of version segments. -/
def isSeparator (c : Char) : Bool :=
  c == '.' || c == '-' || c == '_'

/-- Compares two segments: numbers by value, and a number is later than a word. -/
def compareSegment (a b : List Char) : Ordering :=
  match Text.readWord a, Text.readWord b with
  | some m, some n => compare m n
  | some _, none => .gt
  | none, some _ => .lt
  | none, none => compare a b

/-- Compares segment by segment; of two lists that agree the shorter is first. -/
def compareSegments (a b : String) : Ordering :=
  SemVer.compareParts compareSegment (Text.splitChars isSeparator a.toList)
    (Text.splitChars isSeparator b.toList)

/-- Compares two version texts. -/
def order (a b : String) : Ordering :=
  match lenient? a, lenient? b with
  | some v, some w => (v.order w).then (compare a b)
  | _, _ => compareSegments a b

/-- The part of a version that decides on compatibility: what stands before the first dot or
dash. -/
def major (version : String) : String :=
  String.ofList ((withoutMark version.toList).takeWhile fun c => c != '.' && c != '-')

end RuleDepot.Version
