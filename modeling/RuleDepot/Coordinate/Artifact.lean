import RuleDepot.Coordinate.Fault
import RuleDepot.Table
/-!
Coordinates of external artifacts.  A coordinate names a group, a name, a version and perhaps a
classifier.  The parts are checked once, when the coordinate is made, and the proof that they are
good segments travels with it, so every coordinate is safe as part of a file name or a rule name.
-/

namespace RuleDepot

/-- A character that no segment may hold: it would split a coordinate, leave a directory or break
a line. -/
def isIllegal (c : Char) : Bool :=
  Text.isBlank c || Text.isControl c || c == '/' || c == '\\' || c == ':'

/-- What is wrong with a segment, if anything. -/
def segmentFault? (which : Segment) (text : String) : Option CoordinateFault :=
  if text = "" then some (.emptySegment which)
  else if text = "." ∨ text = ".." then some (.dotSegment which text)
  else (text.toList.find? isIllegal).map (.illegalCharacter which)

/-- A text that may stand in a coordinate. -/
def IsSegment (text : String) : Prop :=
  text ≠ "" ∧ text ≠ "." ∧ text ≠ ".." ∧ ∀ c ∈ text.toList, isIllegal c = false

instance (text : String) : Decidable (IsSegment text) :=
  have : Decidable (∀ c ∈ text.toList, isIllegal c = false) := List.decidableBAll _ _
  inferInstanceAs (Decidable (_ ∧ _ ∧ _ ∧ _))

theorem segmentFault?_eq_none_iff {which : Segment} {text : String} :
    segmentFault? which text = none ↔ IsSegment text := by
  unfold segmentFault? IsSegment
  split
  · simp_all
  · split
    · rename_i h
      rcases h with h | h <;> simp [h]
    · simp_all

/-- Refuses a text that may not stand in a coordinate. -/
def checkSegment (input : String) (which : Segment) (text : String) :
    Except BadCoordinate (PLift (IsSegment text)) :=
  if h : IsSegment text then .ok ⟨h⟩
  else .error (.of input ((segmentFault? which text).getD (.emptySegment which)))

/-- Identity of one external artifact. -/
structure ArtifactKey where
  group : String
  name : String
  version : String
  classifier : Option String
  group_ok : IsSegment group
  name_ok : IsSegment name
  version_ok : IsSegment version
  classifier_ok : ∀ c ∈ classifier, IsSegment c
  deriving DecidableEq

namespace ArtifactKey

/-- The parts of a coordinate with colons between them. -/
def spell (group name version : String) (classifier : Option String) : String :=
  match classifier with
  | some c => s!"{group}:{name}:{version}:{c}"
  | none => s!"{group}:{name}:{version}"

/-- A coordinate from its parts, which are checked in order. -/
def make (group name version : String) (classifier : Option String) :
    Except BadCoordinate ArtifactKey := do
  let input := spell group name version classifier
  let ⟨hg⟩ ← checkSegment input .group group
  let ⟨hn⟩ ← checkSegment input .name name
  let ⟨hv⟩ ← checkSegment input .version version
  match classifier with
  | none => return ⟨group, name, version, none, hg, hn, hv, by simp⟩
  | some c =>
    let ⟨hc⟩ ← checkSegment input .classifier c
    return ⟨group, name, version, some c, hg, hn, hv, by simpa using hc⟩

/-- Reads a coordinate; blanks around it are passed over. -/
def parse (s : String) : Except BadCoordinate ArtifactKey :=
  match Text.splitAt ':' (Text.trim s) with
  | [group, name, version] => make group name version none
  | [group, name, version, classifier] => make group name version (some classifier)
  | _ => .error (.of s .notAnArtifact)

/-- The coordinate as it is written. -/
def text (k : ArtifactKey) : String :=
  spell k.group k.name k.version k.classifier

instance : ToString ArtifactKey := ⟨text⟩

/-- The identity without the version, which is what requests at several versions have in common. -/
def logicalId (k : ArtifactKey) : String :=
  match k.classifier with
  | some c => s!"{k.group}:{k.name}:{c}"
  | none => s!"{k.group}:{k.name}"

/-- The same artifact at another version. -/
def withVersion (k : ArtifactKey) (version : String) : Except BadCoordinate ArtifactKey :=
  make k.group k.name version k.classifier

/-- Compares by group, name, version and classifier, each by its bytes; no classifier comes
first. -/
def order : ArtifactKey → ArtifactKey → Ordering :=
  compareLex (compareOn group) <| compareLex (compareOn name) <|
    compareLex (compareOn version) (compareOn classifier)

instance : Ord ArtifactKey := ⟨order⟩

instance : Std.TransOrd ArtifactKey :=
  inferInstanceAs (Std.TransCmp (compareLex (compareOn group) <| compareLex (compareOn name) <|
    compareLex (compareOn version) (compareOn classifier)))

instance : Std.LawfulEqOrd ArtifactKey where
  eq_of_compare {a b} h := by
    have h : order a b = .eq := h
    simp only [order, compareLex_eq_eq] at h
    obtain ⟨hg, hn, hv, hc⟩ := h
    have hg : a.group = b.group := Std.LawfulEqOrd.eq_of_compare hg
    have hn : a.name = b.name := Std.LawfulEqOrd.eq_of_compare hn
    have hv : a.version = b.version := Std.LawfulEqOrd.eq_of_compare hv
    have hc : a.classifier = b.classifier := Std.LawfulEqOrd.eq_of_compare hc
    cases a; cases b
    simp_all

end ArtifactKey

/-- A group and a name, to which configuration adds the version. -/
structure ArtifactModule where
  group : String
  name : String
  group_ok : IsSegment group
  name_ok : IsSegment name
  deriving DecidableEq

namespace ArtifactModule

/-- A module name from its parts. -/
def make (group name : String) : Except BadCoordinate ArtifactModule := do
  let input := s!"{group}:{name}"
  let ⟨hg⟩ ← checkSegment input .group group
  let ⟨hn⟩ ← checkSegment input .name name
  return ⟨group, name, hg, hn⟩

/-- Reads a module name; blanks around it are passed over. -/
def parse (s : String) : Except BadCoordinate ArtifactModule :=
  match Text.splitAt ':' (Text.trim s) with
  | [group, name] => make group name
  | _ => .error (.of s .notAModuleName)

def text (m : ArtifactModule) : String :=
  s!"{m.group}:{m.name}"

/-- The coordinate at a version. -/
def atVersion (m : ArtifactModule) (version : String) : Except BadCoordinate ArtifactKey :=
  ArtifactKey.make m.group m.name version none

end ArtifactModule

end RuleDepot
