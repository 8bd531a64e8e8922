import RuleDepot.Text.Basic
/-!
Reading the text of a TOML document.  Two kinds of faults are told apart: where the lines, brackets
and braces of a document do not fit, reading ends; a flaw inside of what they hold is noted, the
first one counts, and reading goes on.  So a document whose frame is broken is refused for that,
whatever flaws stand in front.
-/

namespace RuleDepot.Toml

/-- What is wrong inside the frame of a document. -/
inductive Flaw where
  /-- A part says nothing or says too much; what stands from there on. -/
  | unclear (rest : List Char)
  /-- A key leads through too many tables. -/
  | tooDeep
  deriving DecidableEq, Repr

/-- A reader, which fails with the text that it could not go on with.  It knows the length of the
whole text, which bounds the work. -/
abbrev Reader : Type → Type :=
  ReaderT Nat (StateT (List Char) (StateT (Option Flaw) (Except (List Char))))

namespace Reader

variable {α : Type}

/-- The length of the whole text. -/
def room : Reader Nat :=
  read

/-- Fails where the reader is. -/
def fail : Reader α := fun _ s _ => .error s

/-- Notes a flaw, unless there is one. -/
def note (flaw : Flaw) : Reader Unit := fun _ s noted =>
  .ok (((), s), noted.or (some flaw))

/-- Notes a flaw where the reader is. -/
def noteHere : Reader Unit := do
  note (.unclear (← get))

/-- The next character, which stays. -/
def peek? : Reader (Option Char) := do
  return (← get).head?

/-- Drops characters. -/
def drop (n : Nat) : Reader Unit :=
  modify (·.drop n)

/-- Whether the text goes on with some characters. -/
def sees (s : String) : Reader Bool := do
  return s.toList.isPrefixOf (← get)

/-- Takes some characters or fails. -/
def expect (s : String) : Reader Unit := do
  if ← sees s then drop s.length else fail

/-- Takes the longest run of characters of a class. -/
def takeRun (p : Char → Bool) : Reader (List Char) := do
  let s ← get
  set (s.dropWhile p)
  return s.takeWhile p

end Reader

open Reader

/-- Blanks within a line. -/
def isLineBlank (c : Char) : Bool :=
  c == ' ' || c == '\t'

/-- Drops blanks within the line. -/
def blanks : Reader Unit := do
  let _ ← takeRun isLineBlank

/-- Characters that neither a comment nor a string may hold. -/
def isForbidden (c : Char) : Bool :=
  (c.val < 0x20 && c != '\t') || c.val == 0x7F

/-- Takes the end of a line, if it is there. -/
def newline? : Reader Bool := do
  if ← sees "\n" then drop 1; return true
  else if ← sees "\r\n" then drop 2; return true
  else return false

/-- Drops a comment, if there is one. -/
def comment : Reader Unit := do
  if ← sees "\x23" then
    let _ ← takeRun fun c => !isForbidden c

/-- The text behind all blanks, line ends and comments at its front, which may begin in the middle
of a comment. -/
def behindGaps : Bool → List Char → List Char
  | _, [] => []
  | _, '\n' :: rest => behindGaps false rest
  | _, '\r' :: '\n' :: rest => behindGaps false rest
  | true, c :: rest => if isForbidden c then c :: rest else behindGaps true rest
  | false, c :: rest =>
    if isLineBlank c then behindGaps false rest
    else if c = '\x23' then behindGaps true rest
    else c :: rest

/-- Drops blanks, line ends and comments inside brackets or braces. -/
def gaps : Reader Unit :=
  modify (behindGaps false)

/-- Characters that words without quotes are made of, good or bad: all that do not end a word. -/
def isWordChar (c : Char) : Bool :=
  !(c == '.' || c == '=' || c == ',' || c == '[' || c == ']' || c == '\x7b' || c == '\x7d' ||
    c == ' ' || c == '\t' || c == '\x23' || c == '\r' || c == '\n')

end RuleDepot.Toml
