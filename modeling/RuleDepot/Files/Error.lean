/-!
Why an access to the files failed.  The kind is what callers decide on; the text is for people.
-/

namespace RuleDepot

/-- The kinds of failure that callers tell apart. -/
inductive IoKind where
  | notFound
  | permissionDenied
  | alreadyExists
  | notADirectory
  | isADirectory
  | directoryNotEmpty
  | invalidFilename
  | invalidInput
  | invalidData
  | resourceBusy
  | other
  deriving DecidableEq, Repr, Inhabited

namespace IoKind

/-- What a kind means, for people. -/
def text : IoKind → String
  | notFound => "no such file or directory"
  | permissionDenied => "permission denied"
  | alreadyExists => "the file exists"
  | notADirectory => "not a directory"
  | isADirectory => "is a directory"
  | directoryNotEmpty => "directory not empty"
  | invalidFilename => "file name too long"
  | invalidInput => "invalid argument"
  | invalidData => "the file does not hold valid UTF-8"
  | resourceBusy => "the file is in use"
  | other => "input or output error"

end IoKind

/-- A failed access. -/
structure IoError where
  kind : IoKind
  text : String
  deriving DecidableEq, Repr, Inhabited

namespace IoError

/-- A failure that has nothing to add to its kind. -/
def ofKind (kind : IoKind) : IoError :=
  ⟨kind, kind.text⟩

end IoError

end RuleDepot
