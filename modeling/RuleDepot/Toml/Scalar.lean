import RuleDepot.Toml.Moment
import RuleDepot.Toml.Number
import RuleDepot.Toml.Quoted
/-!
TOML values without parts: strings, numbers, truth values, dates and times.  The reader takes the
text from where the value begins and gives the value and what stands behind.
-/

namespace RuleDepot.Toml

open Reader

/-- Takes a number, date or word.  A date and a time may have one blank between them. -/
def bareRun : Reader (List Char) := do
  let inside (c : Char) := isWordChar c || c == '.'
  let first ← takeRun inside
  match (← get) with
  | ' ' :: d :: _ =>
    if (date? first).isSome && Text.isDigit d then
      drop 1
      return first ++ ' ' :: (← takeRun inside)
    else return first
  | _ => return first

/-- The value that a number, date or word stands for. -/
def bareValue? (s : List Char) : Option Value :=
  if s = "true".toList then some (.bool true)
  else if s = "false".toList then some (.bool false)
  else (number? s).or ((moment? s).map .moment)

/-- Reads a value without parts. -/
def scalar : Reader Value := do
  let quoted := match (← peek?) with
    | some c => c = '"' || c = '\''
    | none => false
  if quoted then return .text (← string)
  else
    let start ← get
    let run ← bareRun
    if run.isEmpty then fail
    match bareValue? run with
    | some v => return v
    | none =>
      note (.unclear start)
      return .bool false

end RuleDepot.Toml
