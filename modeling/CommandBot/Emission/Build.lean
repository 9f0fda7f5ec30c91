import CommandBot.Emission.Generation
import CommandBot.Log.Setup
import CommandBot.Settings.Loader

/-
  A whole build: settings are loaded, a logger is set up, and the bots of all sources are generated
  into the output directory. No source keeps another one from being generated; the fault that comes
  first is that of the build.
-/

namespace CommandBot

/-- Why a build fails. -/
inductive BuildFault where
  | settings (fault : SettingsFault)
  | source (fault : SourceFault)
  | bot (fault : Fault)
deriving DecidableEq, Repr

namespace Build

def unloadedEvent (path : String) (f : SourceFault) : Log.Event where
  level := .error
  target := Generation.target
  message := "Failed to load bot source"
  fields := [("path", .plain path), ("error", .plain f.message)]

/-- Generates the bots of one source. -/
def source (announces : Bool) (path : String) : Work (List (Except BuildFault CodeUnit)) := do
  if announces then (Logged.print (OutputDirectory.announcement path) : Logged _)
  match ← Generation.ofFile path with
  | .ok results => return results.map fun r => r.mapError .bot
  | .error f =>
    (Logged.log (unloadedEvent path f) : Logged _)
    return [.error (.source f)]

/-- All units, or else the first fault. -/
def collect (results : List (Except BuildFault CodeUnit)) : Except BuildFault (List CodeUnit) :=
  results.mapM id

/-- Generates the bots of all sources. -/
def sources (announces : Bool) (paths : List String) :
    Work (Except BuildFault (List CodeUnit)) := do
  return collect (← paths.mapM (source announces)).flatten

/-- Builds with settings that were loaded. -/
def withSettings (s : Settings) (env : Environment) (paths : List String) (fs : Files) :
    Logged (Except BuildFault (List CodeUnit) × Files) := do
  let fs ← (Log.Setup.ofPreferences s.logging).start env fs
  match OutputDirectory.ofSettings s env with
  | .error f => return (.error (.settings f), fs)
  | .ok d =>
    let (result, w) ← sources s.announcesSources paths ⟨fs, .directory d⟩
    return (result, w.files)

/-- Builds. -/
def run (w : Surroundings) (paths : List String) :
    Logged (Except BuildFault (List CodeUnit) × Files) := do
  match ← SettingsLoader.load {} w with
  | .error f => return (.error (.settings f), w.files)
  | .ok s => withSettings s w.env paths w.files

end Build

end CommandBot
