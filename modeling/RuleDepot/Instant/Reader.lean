import RuleDepot.Instant.Basic
/-!
Reading instants.  The usual form is read with some freedom: numbers may have fewer digits and
blanks in front of them, a blank may stand between the date and the time, and the distance from
universal time may be given in several ways.
-/

namespace RuleDepot.Instant

/-- A reader of parts of an instant. -/
abbrev Reader : Type → Type :=
  StateT (List Char) Option

namespace Reader

/-- Drops blanks. -/
def blanks : Reader Unit :=
  modify (·.dropWhile Text.isBlank)

/-- Takes a character. -/
def take (c : Char) : Reader Unit := do
  match (← get) with
  | d :: rest => if d = c then set rest else failure
  | [] => failure

/-- Reads a number of at least one digit and at most `width`. -/
def number (width : Nat) : Reader Nat := do
  let s ← get
  let digits := (s.take width).takeWhile Text.isDigit
  if digits.isEmpty then failure
  else
    set (s.drop digits.length)
    return Text.decimalValue digits

/-- Reads a number behind blanks. -/
def spaced (width : Nat) : Reader Nat := do
  blanks
  number width

/-- Reads a year, which may be longer than four digits behind a sign. -/
def year : Reader Int := do
  blanks
  let s ← get
  match s with
  | '-' :: rest =>
    set rest
    return -(← number rest.length : Int)
  | '+' :: rest =>
    set rest
    return (← number rest.length : Int)
  | _ => return (← number 4 : Int)

/-- Takes a character that may have blanks in front of it. -/
def mark (c : Char) : Reader Unit := do
  blanks
  take c

/-- Reads a date. -/
def date : Reader Day := do
  let year ← year
  mark '-'
  let month ← spaced 2
  mark '-'
  return ⟨year, month, ← spaced 2⟩

/-- Takes what stands between a date and a time. -/
def separator : Reader Unit := do
  match (← get) with
  | c :: rest => if c = 'T' || c = 't' || c = ' ' then set rest else failure
  | [] => failure

/-- Reads a fraction as nanoseconds; digits behind the ninth do not count. -/
def fraction : Reader Nat := do
  let s ← get
  match s with
  | '.' :: rest =>
    let digits := rest.takeWhile Text.isDigit
    if digits.isEmpty then failure
    else
      set (rest.dropWhile Text.isDigit)
      let shown := digits.take 9
      return Text.decimalValue shown * Nat.pow 10 (9 - shown.length)
  | _ => return 0

/-- Reads two digits as a number. -/
def twoDigits : Reader Nat := do
  let s ← get
  match s with
  | a :: b :: rest =>
    if Text.isDigit a && Text.isDigit b then
      set rest
      return Text.decimalValue [a, b]
    else failure
  | _ => failure

/-- Reads hours and minutes with colons or blanks between them, as minutes. -/
def distance : Reader Nat := do
  let hours ← twoDigits
  modify (·.dropWhile fun c => c == ':' || Text.isBlank c)
  let minutes ← twoDigits
  if hours < 24 && minutes < 60 then return 60 * hours + minutes else failure

/-- Reads how many minutes the local time is ahead of universal time. -/
def offset : Reader Int := do
  let s ← get
  match s with
  | u :: t :: c :: rest =>
    if [u.toUpper, t.toUpper, c.toUpper] = ['U', 'T', 'C'] then
      set rest
      return 0
  | _ => pure ()
  match s with
  | sign :: rest =>
    set rest
    if sign = 'Z' || sign = 'z' then return 0
    else if sign = '+' then return (← distance : Int)
    else if sign = '-' || sign = '\u2212' then return -(← distance : Int)
    else failure
  | [] => failure

/-- Reads an instant. -/
def instant : Reader Instant := do
  let date ← date
  separator
  let hour ← spaced 2
  mark ':'
  let minute ← spaced 2
  mark ':'
  let second ← spaced 2
  let nanosecond ← fraction
  blanks
  let minutes ← offset
  blanks
  let i : Instant := ⟨date, hour, minute, second, nanosecond⟩
  let moved := i.ofLocal minutes
  if i.isValid && moved.isValid then return moved else failure

end Reader

/-- Reads an instant. -/
def parse? (s : String) : Option Instant :=
  match Reader.instant.run s.toList with
  | some (i, []) => some i
  | _ => none

end RuleDepot.Instant
