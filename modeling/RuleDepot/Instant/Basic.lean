import RuleDepot.Instant.Calendar
import RuleDepot.Text.Basic
/-!
Instants in universal time, to the nanosecond.  They are written in the usual form of dates and
times, with as many groups of three digits of the fraction as are needed.
-/

namespace RuleDepot

/-- An instant in universal time.  The second is 60 in a leap second. -/
structure Instant where
  date : Day
  hour : Nat
  minute : Nat
  second : Nat
  nanosecond : Nat
  deriving DecidableEq, Repr

namespace Instant

/-- The first and the last year that instants may be in. -/
def firstYear : Int := -262143

def lastYear : Int := 262142

/-- Whether there is such an instant. -/
def isValid (i : Instant) : Bool :=
  i.date.isValid && firstYear ≤ i.date.year && i.date.year ≤ lastYear &&
    i.hour ≤ 23 && i.minute ≤ 59 && i.second ≤ 60 && i.nanosecond < 1000000000

/-- The beginning of the count of seconds. -/
def epoch : Instant :=
  ⟨⟨1970, 1, 1⟩, 0, 0, 0, 0⟩

/-- The instant that a clock shows which counts nanoseconds since the epoch. -/
def sinceEpoch (nanoseconds : Nat) : Instant :=
  let seconds := nanoseconds / 1000000000
  let ofDay := seconds % 86400
  ⟨epoch.date.after (seconds / 86400), ofDay / 3600, ofDay / 60 % 60, ofDay % 60,
    nanoseconds % 1000000000⟩

/-- Moves a local time to universal time.  `minutes` is how far the local time is ahead; it is less
than a day. -/
def ofLocal (i : Instant) (minutes : Int) : Instant :=
  let total : Int := 60 * i.hour + i.minute - minutes
  let ofDay := (total % 1440).toNat
  let date := if total < 0 then i.date.previous else if 1440 ≤ total then i.date.next else i.date
  ⟨date, ofDay / 60, ofDay % 60, i.second, i.nanosecond⟩

/-- A year in four digits; one that needs more, or is before the year zero, has a sign. -/
def yearText (year : Int) : String :=
  let digits := Text.zeroPadded 4 year.natAbs
  if year < 0 then "-" ++ digits else if 9999 < year then "+" ++ digits else digits

/-- The date. -/
def dateText (i : Instant) : String :=
  yearText i.date.year ++ "-" ++ Text.zeroPadded 2 i.date.month ++ "-" ++
    Text.zeroPadded 2 i.date.day

/-- The time of day in whole seconds. -/
def timeText (i : Instant) : String :=
  Text.zeroPadded 2 i.hour ++ ":" ++ Text.zeroPadded 2 i.minute ++ ":" ++
    Text.zeroPadded 2 i.second

/-- The fraction of a second in none, three, six or nine digits. -/
def fractionText (nanosecond : Nat) : String :=
  if nanosecond = 0 then ""
  else if nanosecond % 1000000 = 0 then "." ++ Text.zeroPadded 3 (nanosecond / 1000000)
  else if nanosecond % 1000 = 0 then "." ++ Text.zeroPadded 6 (nanosecond / 1000)
  else "." ++ Text.zeroPadded 9 nanosecond

/-- The instant as it is stored. -/
def text (i : Instant) : String :=
  i.dateText ++ "T" ++ i.timeText ++ fractionText i.nanosecond ++ "Z"

/-- The instant as it is shown. -/
def display (i : Instant) : String :=
  i.dateText ++ " " ++ i.timeText ++ " UTC"

end Instant

end RuleDepot
