import RuleDepot.Failure
/-!
What a user is told when a command fails: the chain of causes in one line, its category, and for
the failures that a user can do something about, what they mean and what to do.
-/

namespace RuleDepot

/-- What is told to a user. -/
structure Notice where
  message : String
  category : Option Category
  details : Option String
  suggestion : Option String
  deriving DecidableEq, Repr

namespace Notice

/-- A part of a notice behind its label, if there is one. -/
def labelled (label : String) : Option String → String
  | some s => label ++ s
  | none => ""

/-- The notice as one text. -/
def text (n : Notice) : String :=
  n.message ++ labelled "\nDetails: " n.details ++ labelled "\nSuggestion: " n.suggestion

/-- The notice as lines for a terminal. -/
def lines (n : Notice) : String :=
  "error: " ++ n.message ++ labelled "\ndetails: " n.details ++
    labelled "\nsuggestion: " n.suggestion ++ "\n"

end Notice

namespace BuildError

/-- What a failure means. -/
def details? : BuildError → Option String
  | unresolvedDependency .. => some
    ("Rules referencing a missing artifact would corrupt the generated output, " ++
      "so generation stopped")
  | protocolViolation .. => some
    "This is a bug in the generation driver, not in the project being generated"
  | _ => none

/-- What to do about a failure. -/
def suggestion? : BuildError → Option String
  | unresolvedDependency .. => some
    ("Make sure the host build resolved this coordinate, " ++
      "or add a repository that contains it")
  | unknownModule .. => some
    "Export the referenced module in the project model or fix the module path"
  | cacheWriteFailure .. => some
    ("Check free disk space and permissions of the cache directory " ++
      "(set BUCKFORGE_CACHE_DIR to relocate it)")
  | versionConflict .. => some
    ("Align the requested versions, pin a version in buckforge.toml, " ++
      "or relax the manager's conflict_policy")
  | protocolViolation .. => none
  | invalidCoordinate .. => some "Coordinates are written as group:name:version[:classifier]"
  | config .. => some "Check buckforge.toml against the documented keys"
  | model .. => some "Re-export the project model from the host build tool"
  | render .. => none
  | io .. => none

end BuildError

/-- What to do about a failed access to the files. -/
def IoError.suggestion? (e : IoError) : Option String :=
  match e.kind with
  | .permissionDenied => some
    "Check ownership and permissions of the workspace and cache directories"
  | .notFound => some "Check that the file or directory exists and the path is correct"
  | _ => none

/-- What a command failed at in the end. -/
inductive RootCause where
  | build (e : BuildError)
  | files (e : IoError)
  | refusal (reason : String)
  deriving DecidableEq, Repr

namespace RootCause

/-- The cause in words, and behind it what caused it in turn. -/
def texts : RootCause → List String
  | build e => e.message :: e.cause?.toList
  | files e => [e.text]
  | refusal reason => [reason]

def category? : RootCause → Option Category
  | build e => some e.category
  | files _ => some .io
  | refusal _ => none

def details? : RootCause → Option String
  | build e => e.details?
  | files _ => none
  | refusal _ => none

def suggestion? : RootCause → Option String
  | build e => e.suggestion?
  | files e => e.suggestion?
  | refusal _ => none

end RootCause

/-- A failed command: what it was about, outermost first, and why it failed. -/
structure CommandError where
  contexts : List String
  cause : RootCause
  deriving DecidableEq, Repr

namespace CommandError

def ofBuild (e : BuildError) : CommandError :=
  ⟨[], .build e⟩

def ofFiles (e : IoError) : CommandError :=
  ⟨[], .files e⟩

def refusal (reason : String) : CommandError :=
  ⟨[], .refusal reason⟩

/-- Says what the failed action was about. -/
def within (context : String) (e : CommandError) : CommandError :=
  { e with contexts := context :: e.contexts }

/-- What the user is told. -/
def notice (e : CommandError) : Notice :=
  ⟨": ".intercalate (e.contexts ++ e.cause.texts), e.cause.category?, e.cause.details?,
    e.cause.suggestion?⟩

end CommandError

end RuleDepot
