import CommandBot.Files.Basic
import CommandBot.Log.Logger
import CommandBot.Text.Blank
import CommandBot.Text.Quoted

/-
  The settings of a generator run: where its units go and how it logs. `check` says which settings
  can be used, and the output directory is that of the settings or else the one that the
  environment names.
-/

namespace CommandBot

/-- Variables with their values, in the order in which they were set. -/
abbrev Environment := List (String × String)

namespace Log

/-- How to log. -/
structure Preferences where
  level : Level := .info
  layout : Layout := .compact
  destination : Destination := .stderr
  filePath : Option String := none
  /-- levels for single modules, in the order of the modules' names -/
  filters : List (String × Level) := []
  showsThreads : Bool := false
  showsLocations : Bool := false
deriving DecidableEq, Repr

end Log

/-- The settings of a generator run. -/
structure Settings where
  outDir : Option String := none
  /-- whether to tell the build about each source that a unit depends on -/
  announcesSources : Bool := true
  logging : Log.Preferences := {}
deriving DecidableEq, Repr

/-- Why a source of settings cannot be read. -/
inductive Unreadable where
  /-- no format has this ending -/
  | format (ending : String)
  | syntaxError
  /-- a source does not fit the settings -/
  | misfit (description : String)
deriving DecidableEq, Repr

/-- Why there are no settings to use. -/
inductive SettingsFault where
  | fileMissing (path : String)
  | unreadable (cause : Unreadable)
  | invalid (description : String)
  | fieldMissing (field : String)
deriving DecidableEq, Repr

def Unreadable.message : Unreadable → String
  | .format ending => "Unsupported or disabled configuration file format: ." ++ ending
  | .syntaxError => "Failed to extract configuration: TOML parse error"
  | .misfit description => "Failed to extract configuration: " ++ description

def SettingsFault.message : SettingsFault → String
  | .fileMissing path => "Configuration file not found: " ++ path
  | .unreadable cause => "Failed to parse configuration: " ++ cause.message
  | .invalid description => "Invalid configuration: " ++ description
  | .fieldMissing field => "Missing required configuration field: " ++ field

namespace Log.Preferences

/-- What keeps preferences from being used. -/
def fault? (p : Preferences) : Option SettingsFault :=
  if p.destination = .file ∧ p.filePath.isNone then some (.fieldMissing "logging.file_path")
  else
    (p.filters.find? fun f => (Text.trimBlank f.1.toList).isEmpty).map fun f =>
      .invalid ("Invalid log filter target: " ++ Text.quote f.1)

end Log.Preferences

namespace Settings

/-- What keeps settings from being used. -/
def fault? (s : Settings) : Option SettingsFault :=
  if s.outDir = some "" then some (.invalid "out_dir must not be empty")
  else s.logging.fault?

/-- Refuses settings that cannot be used. -/
def check (s : Settings) : Except SettingsFault Unit :=
  match s.fault? with
  | some f => .error f
  | none => .ok ()

/-- The directory that units are written below. -/
def resolveOutDir (s : Settings) (env : Environment) : Except SettingsFault String :=
  match s.outDir.or (env.lookup "OUT_DIR") with
  | some dir => .ok dir
  | none => .error (.fieldMissing "out_dir")

theorem check_eq_ok_iff (s : Settings) : s.check = .ok () ↔ s.fault? = none := by
  unfold check
  split <;> simp_all

end Settings

end CommandBot
