import RuleDepot.Text.Basic
/-!
Why a text is no coordinate.  A fault keeps the text that was refused and the reason, and
`BadCoordinate.message` puts both into words.
-/

namespace RuleDepot

/-- The parts a coordinate is made of. -/
inductive Segment where
  | group
  | name
  | version
  | classifier
  deriving DecidableEq, Repr

namespace Segment

def text : Segment → String
  | group => "group"
  | name => "name"
  | version => "version"
  | classifier => "classifier"

end Segment

/-- The reasons for which a text is refused. -/
inductive CoordinateFault where
  /-- Not three or four parts between colons. -/
  | notAnArtifact
  /-- Not two parts between colons. -/
  | notAModuleName
  | emptySegment (which : Segment)
  /-- A part that would name the directory itself or the one above. -/
  | dotSegment (which : Segment) (text : String)
  | illegalCharacter (which : Segment) (c : Char)
  | noLeadingColon
  | badModuleSegment
  deriving DecidableEq, Repr

namespace CoordinateFault

def message : CoordinateFault → String
  | notAnArtifact => "expected group:name:version[:classifier]"
  | notAModuleName => "expected group:name"
  | emptySegment which => s!"{which.text} must not be empty"
  | dotSegment which text => s!"{which.text} must not be '{text}'"
  | illegalCharacter which c => s!"{which.text} contains illegal character {Text.quotedChar c}"
  | noLeadingColon => "module paths start with ':'"
  | badModuleSegment => "module path segments must be non-empty and contain no whitespace"

end CoordinateFault

/-- A refused text and the reason. -/
structure BadCoordinate where
  input : String
  reason : String
  deriving DecidableEq, Repr

namespace BadCoordinate

/-- A text refused for a reason that this library knows. -/
def of (input : String) (fault : CoordinateFault) : BadCoordinate :=
  ⟨input, fault.message⟩

def message (b : BadCoordinate) : String :=
  s!"Invalid coordinate '{b.input}': {b.reason}"

end BadCoordinate

end RuleDepot
