import RuleDepot.Path
/-!
The words of a command line.  A command takes switches and settings, and some commands take a
command behind them; a few options may stand with any command, and of several the one behind the
innermost command counts.  The value of a setting is looked at when the next option or the end of
the words of its command is reached, so a word that no command knows is reported before it.
-/

namespace RuleDepot.Command

/-- Why words are no command that can be run. -/
inductive UsageError where
  | helpRequested
  | versionRequested
  /-- Nothing was said at all where a command has to stand. -/
  | nothingSaid
  | missingCommand
  | missingSetting
  | unknownWord
  | unknownCommand
  /-- A setting without a value. -/
  | missingValue
  /-- A value of the wrong form. -/
  | badValue
  /-- An option that may not stand with another, or not twice. -/
  | conflict
  /-- A value for a switch. -/
  | neededNoValue
  deriving DecidableEq, Repr

/-- A command that words may stand behind. -/
inductive Level where
  | top
  | generate
  | clean
  | cache
  | info
  deriving DecidableEq, Repr

namespace Level

/-- The commands that may stand behind a command. -/
def below : Level → List (String × Level)
  | top => [("generate", generate), ("clean", clean), ("cache", cache)]
  | cache => [("info", info)]
  | _ => []

/-- Whether one of several commands has to stand behind. -/
def isGroup (level : Level) : Bool :=
  !level.below.isEmpty

end Level

/-- Options without a value. -/
inductive Switch where
  | verbose
  | quiet
  | all
  | help
  | version
  deriving DecidableEq, Repr

/-- Options with a value. -/
inductive Setting where
  | config
  | workspace
  | model
  | maxParallel
  deriving DecidableEq, Repr

/-- An option. -/
inductive Key where
  | switch (s : Switch)
  | setting (s : Setting)
  deriving DecidableEq, Repr

/-- The option of a long name. -/
def Level.long? (level : Level) (name : String) : Option Key :=
  match name with
  | "verbose" => some (.switch .verbose)
  | "quiet" => some (.switch .quiet)
  | "config" => some (.setting .config)
  | "workspace" => some (.setting .workspace)
  | "help" => some (.switch .help)
  | "version" => if level = .top then some (.switch .version) else none
  | "all" => if level = .clean then some (.switch .all) else none
  | "model" => if level = .generate then some (.setting .model) else none
  | "max-parallel" => if level = .generate then some (.setting .maxParallel) else none
  | _ => none

/-- The option of a letter. -/
def Level.short? (level : Level) (c : Char) : Option Key :=
  match c with
  | 'v' => some (.switch .verbose)
  | 'q' => some (.switch .quiet)
  | 'C' => some (.setting .workspace)
  | 'h' => some (.switch .help)
  | 'V' => if level = .top then some (.switch .version) else none
  | _ => none

/-- The options that stand behind one command. -/
structure Given where
  verbose : Bool
  quiet : Bool
  all : Bool
  config : Option Path
  workspace : Option Path
  model : Option Path
  maxParallel : Option Nat
  deriving DecidableEq, Repr

namespace Given

/-- No options. -/
def nothing : Given :=
  ⟨false, false, false, none, none, none, none⟩

/-- Turns a switch on, which may be done once. -/
def turnOn (g : Given) : Switch → Except UsageError Given
  | .verbose => if g.verbose then .error .conflict else .ok { g with verbose := true }
  | .quiet => if g.quiet then .error .conflict else .ok { g with quiet := true }
  | .all => if g.all then .error .conflict else .ok { g with all := true }
  | .help => .error .helpRequested
  | .version => .error .versionRequested

/-- Sets a path that is not set yet. -/
def setPath (old : Option Path) (value : String) : Except UsageError (Option Path) :=
  if old.isSome then .error .conflict
  else if value.isEmpty then .error .missingValue
  else .ok (some ⟨value⟩)

/-- Gives a setting its value, which may be done once. -/
def assign (g : Given) (key : Setting) (value : String) : Except UsageError Given :=
  match key with
  | .config => do return { g with config := ← setPath g.config value }
  | .workspace => do return { g with workspace := ← setPath g.workspace value }
  | .model => do return { g with model := ← setPath g.model value }
  | .maxParallel =>
    if g.maxParallel.isSome then .error .conflict
    else
      match Text.readWord value.toList with
      | some n => .ok { g with maxParallel := some n }
      | none => .error .badValue

end Given

/-- What was read behind one command: its options, and the setting read last, whose value was not
looked at or is still to come. -/
structure Progress where
  given : Given
  pending : Option (Setting × Option String)
  deriving DecidableEq, Repr

namespace Progress

/-- Nothing was read. -/
def start : Progress :=
  ⟨.nothing, none⟩

/-- Whether the next word is the value of a setting. -/
def awaitsValue (p : Progress) : Bool :=
  match p.pending with
  | some (_, none) => true
  | _ => false

/-- The options with the last setting looked at. -/
def settled (p : Progress) : Except UsageError Given :=
  match p.pending with
  | none => .ok p.given
  | some (_, none) => .error .missingValue
  | some (key, some value) => p.given.assign key value

/-- Reads a switch. -/
def switch (p : Progress) (s : Switch) : Except UsageError Progress := do
  return ⟨← (← p.settled).turnOn s, none⟩

/-- Reads a setting, with its value if that stands in the same word. -/
def setting (p : Progress) (key : Setting) : Option String → Except UsageError Progress
  | some value => do return ⟨← (← p.settled).assign key value, none⟩
  | none => do return ⟨← p.settled, some (key, none)⟩

/-- Reads a word that is neither a command nor an option, as the value of the last setting. -/
def value (p : Progress) (word : String) : Progress :=
  { p with pending := p.pending.map fun (key, _) => (key, some word) }

/-- Reads a long option, given without its dashes. -/
def long (p : Progress) (level : Level) (word : List Char) : Except UsageError Progress :=
  let (name, value?) := match Text.cutFirst '=' word with
    | some (name, value) => (name, some (String.ofList value))
    | none => (word, none)
  match level.long? (String.ofList name) with
  | none => .error .unknownWord
  | some (.setting key) => p.setting key value?
  | some (.switch s) => if value?.isSome then .error .neededNoValue else p.switch s

/-- The value that stands behind the letter of a setting. -/
def attached : List Char → Option String
  | [] => none
  | '=' :: rest => some (String.ofList rest)
  | rest => some (String.ofList rest)

/-- Reads the letters behind one dash. -/
def short (p : Progress) (level : Level) : List Char → Except UsageError Progress
  | [] => .ok p
  | c :: rest =>
    match level.short? c with
    | none => .error .unknownWord
    | some (.setting key) => p.setting key (attached rest)
    | some (.switch s) =>
      match p.switch s with
      | .ok p => p.short level rest
      | .error e => .error e

end Progress

/-- What is to be done. -/
inductive Task where
  | generate (model : Path) (maxParallel : Option Nat)
  | clean (all : Bool)
  | cacheInfo
  deriving DecidableEq, Repr

/-- A command line that can be run. -/
structure Invocation where
  verbose : Bool
  quiet : Bool
  config : Option Path
  workspace : Option Path
  task : Task
  deriving DecidableEq, Repr

namespace Invocation

/-- How much is logged. -/
def logLevel (i : Invocation) : String :=
  if i.verbose then "debug" else if i.quiet then "warn" else "info"

/-- Adds the options that stand before the command. -/
def behind (i : Invocation) (outer : Given) : Invocation :=
  { i with
    verbose := i.verbose || outer.verbose
    quiet := i.quiet || outer.quiet
    config := i.config.orElse fun _ => outer.config
    workspace := i.workspace.orElse fun _ => outer.workspace }

end Invocation

/-- Refuses options that may not stand together behind one command. -/
def checkTogether (g : Given) : Except UsageError Unit :=
  if g.verbose && g.quiet then .error .conflict else .ok ()

/-- What is to be done when all words behind a command are read. -/
def taskOf (level : Level) (g : Given) : Except UsageError Task :=
  match level with
  | .generate =>
    match g.model with
    | some model => .ok (.generate model g.maxParallel)
    | none => .error .missingSetting
  | .clean => .ok (.clean g.all)
  | .info => .ok .cacheInfo
  | _ => .error (if g = .nothing then .nothingSaid else .missingCommand)

/-- Ends the words of a command with no command behind it. -/
def conclude (level : Level) (p : Progress) : Except UsageError Invocation := do
  let g ← p.settled
  if !level.isGroup then checkTogether g
  let task ← taskOf level g
  return ⟨g.verbose, g.quiet, g.config, g.workspace, task⟩

/-- Ends the words of a command in front of the command that follows it. -/
def enclose (p : Progress) (inner : Invocation) : Except UsageError Invocation := do
  let g ← p.settled
  checkTogether g
  return inner.behind g

/-- What the words behind `help` ask for. -/
def helpFor (level : Level) : List String → UsageError
  | [] => .helpRequested
  | word :: rest =>
    match level.below.lookup word with
    | some inner => helpFor inner rest
    | none => if level.isGroup && word = "help" && rest.isEmpty then .helpRequested
      else .unknownCommand

/-- What is wrong with a word that is neither an option nor a value nor a command. -/
def strayWord (level : Level) : UsageError :=
  if level.isGroup then .unknownCommand else .unknownWord

/-- What is wrong with a word behind a double dash. -/
def wordBehindDashes (level : Level) (word : String) : UsageError :=
  if (level.below.lookup word).isSome || (level.isGroup && word = "help") then .unknownWord
  else strayWord level

/-- Reads the words behind a command. -/
def parseAt (level : Level) (p : Progress) : List String → Except UsageError Invocation
  | [] => conclude level p
  | word :: rest =>
    match if p.awaitsValue then none else level.below.lookup word with
    | some inner =>
      match parseAt inner .start rest with
      | .ok invocation => enclose p invocation
      | .error e => .error e
    | none =>
      if !p.awaitsValue && level.isGroup && word = "help" then .error (helpFor level rest)
      else
        match word.toList with
        | ['-', '-'] =>
          match rest with
          | [] => conclude level p
          | next :: _ => .error (wordBehindDashes level next)
        | '-' :: '-' :: option =>
          match p.long level option with
          | .ok p => parseAt level p rest
          | .error e => .error e
        | '-' :: c :: letters =>
          match p.short level (c :: letters) with
          | .ok p => parseAt level p rest
          | .error e => .error e
        | _ => if p.awaitsValue then parseAt level (p.value word) rest else .error (strayWord level)

/-- Reads a command line, given without the name of the program. -/
def parse (words : List String) : Except UsageError Invocation :=
  parseAt .top .start words

end RuleDepot.Command
