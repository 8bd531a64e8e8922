import RuleDepot.Instant.Calendar
import RuleDepot.Text.Basic
/-!
TOML dates and times, brought into one form: with seconds, with a fraction of at most nine digits
that does not end in zero, with `T` between date and time, and with a plus sign where the distance
from universal time is nothing.
-/

namespace RuleDepot.Toml

/-- The number written by exactly so many digits. -/
def fixedNumber? (width : Nat) (s : List Char) : Option Nat :=
  if s.length = width && s.all Text.isDigit then some (Text.decimalValue s) else none

/-- Reads a date. -/
def date? (s : List Char) : Option String := do
  let [y, m, d] := Text.splitChars (· == '-') s | none
  let year ← fixedNumber? 4 y
  let month ← fixedNumber? 2 m
  let day ← fixedNumber? 2 d
  if (Day.mk year month day).isValid then
    some (String.ofList s)
  else none

/-- Reads hours, minutes and perhaps seconds; says whether there are seconds. -/
def clock? (s : List Char) : Option Bool := do
  let h :: m :: rest := Text.splitChars (· == ':') s | none
  let hour ← fixedNumber? 2 h
  let minute ← fixedNumber? 2 m
  if 23 < hour || 59 < minute then none
  match rest with
  | [] => some false
  | [sec] => if (← fixedNumber? 2 sec) ≤ 60 then some true else none
  | _ => none

/-- Reads a time of day. -/
def time? (s : List Char) : Option String := do
  let clock := s.takeWhile (· != '.')
  let hasSeconds ← clock? clock
  match s.dropWhile (· != '.') with
  | [] => some (String.ofList clock ++ (if hasSeconds then "" else ":00"))
  | _ :: fraction =>
    if !hasSeconds || fraction.isEmpty || !fraction.all Text.isDigit then none
    else
      let shown := ((fraction.take 9).reverse.dropWhile (· == '0')).reverse
      some (String.ofList (if shown.isEmpty then clock else clock ++ '.' :: shown))

/-- Reads the distance from universal time. -/
def offset? (s : List Char) : Option String := do
  let sign :: rest := s | none
  let [h, m] := Text.splitChars (· == ':') rest | none
  let hour ← fixedNumber? 2 h
  let minute ← fixedNumber? 2 m
  if (sign == '+' || sign == '-') && hour ≤ 23 && minute ≤ 59 then
    some (String.ofList (if hour = 0 && minute = 0 then '+' :: rest else s))
  else none

/-- Reads a time of day that may end in a distance from universal time. -/
def zonedTime? (s : List Char) : Option String :=
  let clock := s.takeWhile fun c => Text.isDigit c || c == ':' || c == '.'
  match s.dropWhile fun c => Text.isDigit c || c == ':' || c == '.' with
  | [] => time? clock
  | ['Z'] => (time? clock).map (· ++ "Z")
  | ['z'] => (time? clock).map (· ++ "Z")
  | rest => do return (← time? clock) ++ (← offset? rest)

/-- Reads a date, a time or both. -/
def moment? (s : List Char) : Option String :=
  if s.length ≤ 10 && (date? s).isSome then date? s
  else if (time? s).isSome then time? s
  else
    match s.drop 10 with
    | mark :: rest =>
      if mark == 'T' || mark == 't' || mark == ' ' then do
        return (← date? (s.take 10)) ++ "T" ++ (← zonedTime? rest)
      else none
    | [] => none

end RuleDepot.Toml
