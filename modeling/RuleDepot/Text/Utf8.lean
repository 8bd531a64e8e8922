/-!
Reading bytes as UTF-8 where not all of them may spell characters.
-/

namespace RuleDepot.Text

/-- What bytes spell from a place on: characters, and `none` for each byte that belongs to none. -/
def unitsFrom (bytes : ByteArray) : Nat → Nat → List (Option Char)
  | 0, _ => []
  | fuel + 1, place =>
    if place < bytes.size then
      match bytes.utf8DecodeChar? place with
      | some c => some c :: unitsFrom bytes fuel (place + c.utf8Size)
      | none => none :: unitsFrom bytes fuel (place + 1)
    else []

/-- What bytes spell: characters, and `none` for each byte that belongs to none. -/
def units (bytes : ByteArray) : List (Option Char) :=
  match String.fromUTF8? bytes with
  | some s => s.toList.map some
  | none => unitsFrom bytes bytes.size 0

/-- The characters of units, if all of them are characters. -/
def characters? : List (Option Char) → Option (List Char)
  | [] => some []
  | some c :: rest => (characters? rest).map (c :: ·)
  | none :: _ => none

theorem characters?_map_some (s : List Char) : characters? (s.map some) = some s := by
  induction s with
  | nil => rfl
  | cons c rest ih => simp [characters?, ih]

/-- A text spells its characters. -/
theorem units_toUTF8 (s : String) : units s.toUTF8 = s.toList.map some := by
  simp [units, String.fromUTF8?, String.fromUTF8, s.isValidUTF8]

/-- The text that bytes spell, with a replacement character for each byte that belongs to none. -/
def repaired (bytes : ByteArray) : String :=
  String.ofList ((units bytes).map fun unit => unit.getD '\ufffd')

end RuleDepot.Text
