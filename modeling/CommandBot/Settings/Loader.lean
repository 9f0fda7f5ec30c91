import CommandBot.Log.Logged
import CommandBot.Settings.Extraction
import CommandBot.Settings.Variable
import CommandBot.Text.Record
import CommandBot.Toml.Document

/-
  Loading settings. Four kinds of sources lie one over the other: defaults, one file, environment
  variables, and overrides. `layers` is their order; what the later one gives wins.
-/

namespace CommandBot

/-- What a run sees of its surroundings. -/
structure Surroundings where
  files : Files := {}
  env : Environment := []
  /-- the path of the working directory, as it is shown -/
  workingDirectory : String := files.workingDirectory

/-- Where settings are loaded from. -/
structure SettingsLoader where
  /-- merged last, in this order -/
  overrides : List Settings := []
  searchPaths : List String := []
  usesEnvironment : Bool := true
  /-- a file to load in place of one that is searched for -/
  file : Option String := none

/-- A file, by the path that it is opened with and by the path that it is shown with. -/
structure SettingsFile where
  path : String
  shown : String

namespace SettingsLoader

def fileName : String := "magicord.toml"

def target : String := "magicord_processor::config::loader"

def fileEvent (shown : String) : Log.Event where
  level := .info
  target := target
  message := "Loading configuration file"
  fields := [("path", .plain shown)]

def noFileEvent : Log.Event where
  level := .trace
  target := target
  message := "No configuration file found, using defaults"

def variablesEvent : Log.Event where
  level := .trace
  target := target
  message := "Loading environment variables with MAGICORD_ prefix"

def loadedEvent (s : Settings) : Log.Event where
  level := .debug
  target := target
  message := "Configuration loaded successfully"
  fields :=
    [("logging_level", .plain s.logging.level.name), ("out_dir", .plain (Text.optional (s.outDir.map Text.quote)))]

/-! ## Files -/

/-- A file in a directory. -/
def inDirectory (dir : String) : SettingsFile :=
  let path := Path.push dir fileName
  ⟨path, path⟩

/-- The files that are looked for, in order. -/
def candidates (l : SettingsLoader) (w : Surroundings) : List SettingsFile :=
  if l.searchPaths.isEmpty then
    ((w.env.lookup "CARGO_MANIFEST_DIR").map inDirectory).toList ++
      [⟨fileName, Path.push w.workingDirectory fileName⟩]
  else l.searchPaths.map inDirectory

/-- The file to load, if there is one. -/
def choose (l : SettingsLoader) (w : Surroundings) : Except SettingsFault (Option SettingsFile) :=
  match l.file with
  | some path =>
    if w.files.exists_ path then .ok (some ⟨path, path⟩) else .error (.fileMissing path)
  | none => .ok ((l.candidates w).find? fun f => w.files.exists_ f.path)

/-- What follows the last dot of a file name that does not begin with it. -/
def ending (path : String) : String :=
  match Path.fileName? path with
  | none => ""
  | some name =>
    let after := name.toList.reverse.takeWhile (· != '.')
    if after.length + 1 < name.length then String.ofList after.reverse else ""

/-- A path as messages spell it. -/
def spelled (path : String) : String := Path.ofSteps ((Path.steps path).filter (· != .here))

/-- The entries of a file. Where a directory has the file's name there are none. -/
def readFile (fs : Files) (f : SettingsFile) :
    Except SettingsFault (List (String × Datum)) :=
  if ending f.path != "toml" then .error (.unreadable (.format (ending f.path)))
  else if !fs.isFile f.path then .ok []
  else
    match fs.read f.path with
    | .error e => .error (.unreadable (.misfit (e.message ++ "\n in " ++
        Misfit.origin (.file (spelled f.path)))))
    | .ok content =>
      match Toml.parse? content with
      | some es => .ok es
      | none => .error (.unreadable .syntaxError)

/-! ## Layers -/

/-- What one kind of source gives. -/
abbrev Layer := List (String × Tree)

namespace Layer

/-- What several sources of one kind give, the later ones over the earlier ones. -/
def ofAll (s : Provenance) (sources : List (List (String × Datum))) : Layer :=
  sources.foldl (fun l es => Tree.mergeEntries l (Tree.ofEntries s es)) []

def defaults : Layer := Tree.ofEntries .defaults (Settings.entries {})

def ofFile (path : String) (es : List (String × Datum)) : Layer := Tree.ofEntries (.file path) es

def ofVariables (env : Environment) : Layer :=
  ofAll .environment (env.filterMap Variable.setting?)

def ofOverrides (overrides : List Settings) : Layer :=
  ofAll .override (overrides.map Settings.entries)

end Layer

/-- All layers, the lowest first. -/
def layers (l : SettingsLoader) (env : Environment) (file : List Layer) : List Layer :=
  Layer.defaults :: file ++ (if l.usesEnvironment then [Layer.ofVariables env] else []) ++
    [Layer.ofOverrides l.overrides]

/-- What all layers give together. -/
def merged (ls : List Layer) : Layer := ls.foldl Tree.mergeEntries []

/-- The settings that some layers give. -/
def extract (ls : List Layer) : Except SettingsFault Settings :=
  match Extraction.settings (merged ls) with
  | .error m => .error (.unreadable (.misfit m.message))
  | .ok s => .ok s

/-! ## Loading -/

/-- Says which file is loaded. -/
def reportFile : Option SettingsFile → Logged Unit
  | some f => Logged.log (fileEvent f.shown)
  | none => Logged.log noFileEvent

/-- The layer of the file to load. -/
def fileLayer (fs : Files) : Option SettingsFile → Except SettingsFault (List Layer)
  | none => .ok []
  | some f => (readFile fs f).map fun es => [Layer.ofFile (spelled f.path) es]

/-- Whether a fault shows before the other sources are looked at. -/
def isEarly : SettingsFault → Bool
  | .unreadable (.format _) => true
  | _ => false

/-- Settings that can be used, from what was found of the file. -/
def conclude (l : SettingsLoader) (env : Environment) (file : Except SettingsFault (List Layer)) :
    Except SettingsFault Settings := do
  let s ← extract (l.layers env (← file))
  s.check
  return s

/-- Loads settings. -/
def load (l : SettingsLoader) (w : Surroundings) : Logged (Except SettingsFault Settings) :=
  match l.choose w with
  | .error e => pure (.error e)
  | .ok chosen => do
    reportFile chosen
    let file := fileLayer w.files chosen
    match file with
    | .error e =>
      if isEarly e then return .error e
    | .ok _ => pure ()
    if l.usesEnvironment then Logged.log variablesEvent
    match l.conclude w.env file with
    | .error e => return .error e
    | .ok s => do
      Logged.log (loadedEvent s)
      return .ok s

end SettingsLoader

end CommandBot
