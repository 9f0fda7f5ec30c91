import CommandBot.Emission.Unit
import CommandBot.Settings.Basic

/-
  Where units go: into memory, or into files below an output directory. Two units of one run that
  have the same path collide, and the second is refused; a file that an earlier run left is
  replaced, or left alone where it holds the same text already. `emit_repeated` is the refusal.
-/

namespace CommandBot

/-- A unit in memory. -/
structure KeptUnit where
  namespace_ : String
  name : String
  source : String
  dependencies : Dependencies
deriving DecidableEq, Repr

/-- A directory that units are written below. -/
structure OutputDirectory where
  path : String
  /-- whether to tell the build about each source that a unit depends on -/
  announcesSources : Bool := false
  /-- the paths that this run has written, the latest first -/
  written : List String := []
deriving DecidableEq, Repr

namespace OutputDirectory

/-- The output directory that settings and environment choose. -/
def ofSettings (s : Settings) (env : Environment) : Except SettingsFault OutputDirectory :=
  (s.resolveOutDir env).map fun path => { path, announcesSources := s.announcesSources }

/-- The path of a unit's file. -/
def pathOf (d : OutputDirectory) (u : CodeUnit) : String := Path.push d.path u.relativePath

/-- Whether this run has written a path, however it is spelled. -/
def hasWritten (d : OutputDirectory) (path : String) : Bool :=
  d.written.any fun p => Path.steps p == Path.steps path

/-- What tells the build that it depends on a source. -/
def announcement (source : String) : String := "cargo:rerun-if-changed=" ++ source

def unchangedEvent (path : String) : Log.Event where
  level := .trace
  target := "magicord_processor::emit"
  message := "Generated unit unchanged"
  fields := [("path", .plain path)]

def writtenEvent (path : String) : Log.Event where
  level := .debug
  target := "magicord_processor::emit"
  message := "Wrote generated unit"
  fields := [("path", .plain path)]

/-- Announces some sources. -/
def announce (d : OutputDirectory) (sources : List String) : Logged Unit :=
  if d.announcesSources then ⟨(), sources.map fun s => .line (announcement s)⟩ else pure ()

/-- The directory after a unit was written. -/
def record (d : OutputDirectory) (path : String) : OutputDirectory :=
  { d with written := path :: d.written }

/-- Brings the file at a path to hold a text. -/
def update (fs : Files) (path text : String) : Logged (Except FileFault Files) :=
  if fs.holds path text then do
    Logged.log (unchangedEvent path)
    return .ok fs
  else
    match fs.write path (.text text) with
    | .error e => return .error e
    | .ok fs' => do
      Logged.log (writtenEvent path)
      return .ok fs'

/-- Writes a unit below the directory. -/
def emit (d : OutputDirectory) (fs : Files) (u : CodeUnit) (deps : Dependencies) :
    Logged (Except EmissionFault Unit × OutputDirectory × Files) :=
  let path := d.pathOf u
  if d.hasWritten path then return (.error (.repeated path), d, fs)
  else
    match fs.makeAll ((Path.parent? path).getD []) with
    | (.error e, fs') => return (.error (.file e), d, fs')
    | (.ok _, fs') => do
      match ← update fs' path u.render with
      | .error e => return (.error (.file e), d, fs')
      | .ok fs'' => do
        d.announce deps.sources
        return (.ok (), d.record path, fs'')

/-- The paths that this run has written, in order. -/
def listing (d : OutputDirectory) : List String :=
  d.written.mergeSort fun p q => Path.le (Path.steps p) (Path.steps q)

theorem emit_repeated (d : OutputDirectory) (fs : Files) (u : CodeUnit) (deps : Dependencies)
    (h : d.hasWritten (d.pathOf u) = true) :
    d.emit fs u deps = pure (.error (.repeated (d.pathOf u)), d, fs) := by
  simp [emit, h]

end OutputDirectory

/-- Where units go. -/
inductive Sink where
  /-- kept in the order of emission -/
  | memory (units : List KeptUnit)
  | directory (d : OutputDirectory)
deriving DecidableEq, Repr

/-- The files of a run, and where its units go. -/
structure Workspace where
  files : Files
  sink : Sink
deriving DecidableEq, Repr

/-- Work on a workspace. -/
abbrev Work (α : Type) := StateT Workspace Logged α

namespace Workspace

/-- The unit as it is kept in memory. -/
def kept (u : CodeUnit) (deps : Dependencies) : KeptUnit :=
  ⟨u.namespace_, u.name, u.render, deps⟩

/-- Persists a unit. -/
def emit (u : CodeUnit) (deps : Dependencies) : Work (Except EmissionFault Unit) := fun w =>
  match w.sink with
  | .memory units => pure (.ok (), { w with sink := .memory (units ++ [kept u deps]) })
  | .directory d => do
    let (outcome, d, files) ← d.emit w.files u deps
    return (outcome, ⟨files, .directory d⟩)

end Workspace

end CommandBot
