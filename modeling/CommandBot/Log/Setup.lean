import CommandBot.Log.Logged
import CommandBot.Settings.Basic
import CommandBot.Text.Record

/-
  Setting up a logger. A base level comes first, which the environment may replace by a filter, and
  then directives one by one; a directive that makes no sense is reported and left out. A log in a
  file goes behind what the file holds.
-/

namespace CommandBot.Log

/-- How a logger is to be set up. -/
structure Setup where
  directives : List String := []
  /-- the base level, which is `info` where it is not set -/
  level : Option Level := none
  layout : Layout := .compact
  destination : Destination := .stderr
  details : Details := {}
  filePath : Option String := none
deriving DecidableEq, Repr

/-- Why a logger is not set up. -/
inductive SetupFault where
  /-- there is a logger already -/
  | occupied
deriving DecidableEq, Repr

def SetupFault.message : SetupFault → String
  | .occupied => "a global default trace dispatcher has already been set"

namespace Setup

def target : String := "magicord_processor::logging"

/-- The directive of a level for one module. -/
def directiveFor (f : String × Level) : String := f.1 ++ "=" ++ f.2.name

/-- The setup that someone prefers. -/
def ofPreferences (p : Preferences) : Setup where
  directives := p.filters.map directiveFor
  level := some p.level
  layout := p.layout
  destination := p.destination
  details := ⟨p.showsThreads, p.showsLocations, p.showsLocations⟩
  filePath := p.filePath

/-! ## Description -/

/-- A setup for a reader. -/
def description (s : Setup) : String :=
  Text.record "LoggingBuilder"
    [("directives", Text.bracketed (s.directives.map Text.quote)),
     ("level", Text.optional (s.level.map fun l => "Level(" ++ Text.capitalized l.name ++ ")")),
     ("format", Text.capitalized s.layout.name),
     ("output", Text.capitalized s.destination.name),
     ("with_thread_ids", Text.truth s.details.threads),
     ("with_file", Text.truth s.details.files),
     ("with_line_number", Text.truth s.details.lines),
     ("file_path", Text.optional (s.filePath.map Text.quote))]

/-! ## Filter -/

def ignoredEvent (directive : String) (f : DirectiveFault) : Event where
  level := .warn
  target := target
  message := "Ignoring invalid log directive"
  fields := [("directive", .plain directive), ("error", .plain f.message)]

/-- The filter before the directives. -/
def baseFilter (s : Setup) (env : Environment) : Filter :=
  let ofLevel : Filter := [{ level := some (s.level.getD .info) }]
  match env.lookup "RUST_LOG" with
  | none => ofLevel
  | some text => (Filter.ofText text).toOption.getD ofLevel

/-- A filter with one more directive, unless that makes no sense. -/
def refine (f : Filter) (directive : String) : Logged Filter :=
  match Directive.ofText directive with
  | .ok d => pure (f ++ [d])
  | .error e => do
    Logged.log (ignoredEvent directive e)
    return f

/-- The filter of a setup. -/
def filter (s : Setup) (env : Environment) : Logged Filter :=
  s.directives.foldlM refine (s.baseFilter env)

/-! ## Destination -/

def noFileEvent : Event where
  level := .warn
  target := target
  message := "File output requested but no file path configured, falling back to stderr"

/-- The file that a log with this path goes into. -/
def fileFor (path : String) : String :=
  let directory := match Path.parent? path with
    | some way => Path.ofSteps way
    | none => "."
  Path.push directory ((Path.fileName? path).getD "magicord.log")

/-- What the log goes to: what is meant for a file, but for none that is named, goes to `stderr`. -/
def outlet (s : Setup) : Logged Outlet :=
  match s.destination, s.filePath with
  | .stdout, _ => return .stdout
  | .stderr, _ => return .stderr
  | .file, some path => return .file (fileFor path)
  | .file, none => do
    Logged.log noFileEvent
    return .stderr

/-- Makes sure that there is a log file, if the log goes into one. -/
def openFile (o : Outlet) (fs : Files) : Files :=
  match o with
  | .file path => fs.append path ""
  | _ => fs

/-! ## Start -/

/-- Sets up a logger. -/
def start (s : Setup) (env : Environment) (fs : Files) : Logged Files := do
  let filter ← s.filter env
  let outlet ← s.outlet
  Logged.install ⟨filter, s.layout, s.details, outlet⟩
  return openFile outlet fs

/-- Sets up a logger where there is one already, and so in vain. -/
def startAgain (s : Setup) (env : Environment) (fs : Files) :
    Logged (Except SetupFault Unit × Files) := do
  let fs ← s.start env fs
  return (.error .occupied, fs)

end Setup

end CommandBot.Log
