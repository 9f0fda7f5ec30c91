import CommandBot.Settings.Basic
import CommandBot.Settings.Tree
import CommandBot.Text.Record

/-
  Settings from data. Each field is read where it stands; names that mean nothing here are passed
  over. Fields are read in the order of their names, and the first one that does not fit is
  reported with its path and with where its value comes from.
-/

namespace CommandBot

/-- How a value does not fit. -/
inductive MisfitKind where
  | type (found expected : String)
  | variant (found : String) (all : List String)
deriving DecidableEq, Repr

/-- A value that does not fit, with its path and where it comes from. -/
structure Misfit where
  kind : MisfitKind
  path : List String
  source : Provenance
deriving DecidableEq, Repr

/-- What a value is, for a reader. -/
def Datum.description : Datum → String
  | .truth b => "bool " ++ Text.truth b
  | .unsigned n => "unsigned int `" ++ toString n ++ "`"
  | .signed i => "signed int `" ++ (if i < 0 then "-" else "") ++ toString i.natAbs ++ "`"
  | .float x => "float `" ++ x.shown ++ "`"
  | .character c => "string " ++ Text.quote (String.ofList [c])
  | .text s => "string " ++ Text.quote s
  | .list _ => "sequence"
  | .table _ => "map"

namespace Tree

def description : Tree → String
  | .plain _ d => d.description
  | .table _ _ => "map"

end Tree

namespace Misfit

/-- A path as the source of a value spells it. -/
def key (source : Provenance) (path : List String) : String :=
  match source with
  | .environment => ".".intercalate (path.map fun s => String.ofList (s.toList.map Char.toUpper))
  | _ => ".".intercalate ("default" :: path)

/-- The source of a value, for a reader. -/
def origin : Provenance → String
  | .defaults => "defaults"
  | .file path => path ++ " TOML file"
  | .environment => "`MAGICORD_` environment variable(s)"
  | .override => "overrides"

/-- Some alternatives, for a reader. -/
def alternatives : List String → String
  | [] => "none"
  | [a] => "`" ++ a ++ "`"
  | [a, b] => "`" ++ a ++ "` or `" ++ b ++ "`"
  | all => "one of " ++ ", ".intercalate (all.map fun a => "`" ++ a ++ "`")

def complaint : MisfitKind → String
  | .type found expected => "invalid type: found " ++ found ++ ", expected " ++ expected
  | .variant found all =>
    "unknown variant: found `" ++ found ++ "`, expected `" ++ alternatives all ++ "`"

def message (m : Misfit) : String :=
  complaint m.kind ++ " for key " ++ Text.quote (key m.source m.path) ++ " in " ++ origin m.source

end Misfit

namespace Extraction

variable {α : Type}

/-- Reads what stands at a path. -/
abbrev Reader (α : Type) := List String → Tree → Except Misfit α

/-- Refuses a value where something else is expected. -/
def refuse (expected : String) (path : List String) (t : Tree) : Except Misfit α :=
  .error ⟨.type t.description expected, path, t.source⟩

def truth : Reader Bool
  | _, .plain _ (.truth b) => .ok b
  | path, t => refuse "a boolean" path t

def filePath : Reader String
  | _, .plain _ (.text s) => .ok s
  | _, .plain _ (.character c) => .ok (String.ofList [c])
  | path, t => refuse "path string" path t

/-- One of several values, each with a name. A table stands for the value that its first name
names, but then has to hold nothing behind it, which no source can say. -/
def choice (what : String) (all : List α) (name : α → String) : Reader α
  | path, .plain s (.text found) =>
    match all.find? fun a => name a == found with
    | some a => .ok a
    | none => .error ⟨.variant found (all.map name), path, s⟩
  | path, .table s es =>
    match Tree.inOrder es with
    | [] => .error ⟨.type "map" "enum", path, s⟩
    | (found, t) :: _ =>
      if all.any fun a => name a == found then refuse "unit" (path ++ [found]) t
      else .error ⟨.variant found (all.map name), path ++ [found], t.source⟩
  | path, t => refuse ("enum " ++ what) path t

def level : Reader Log.Level := choice "LogLevel" Log.Level.all Log.Level.name

def layout : Reader Log.Layout := choice "LogFormat" Log.Layout.all Log.Layout.name

def destination : Reader Log.Destination :=
  choice "LogOutput" Log.Destination.all Log.Destination.name

/-- Levels behind names, in the order of the names. -/
def filters : Reader (List (String × Log.Level))
  | path, .table _ es =>
    (Tree.inOrder es).mapM fun e => (level (path ++ [e.1]) e.2).map (e.1, ·)
  | path, t => refuse "a map" path t

/-- The field with a name, or what stands for it where it is missing. -/
def field (es : List (String × Tree)) (path : List String) (name : String) (missing : α)
    (read : Reader α) : Except Misfit α :=
  match es.lookup name with
  | some t => read (path ++ [name]) t
  | none => .ok missing

/-- A reader of what may be missing. -/
def given (read : Reader α) : Reader (Option α) := fun path t => (read path t).map some

/-- The preferences in a table. -/
def preferencesIn (path : List String) (es : List (String × Tree)) :
    Except Misfit Log.Preferences := do
  let p : Log.Preferences := {}
  let showsLocations ← field es path "file_location" p.showsLocations truth
  let filePath ← field es path "file_path" p.filePath (given filePath)
  let filters ← field es path "filters" p.filters filters
  let layout ← field es path "format" p.layout layout
  let level ← field es path "level" p.level level
  let destination ← field es path "output" p.destination destination
  let showsThreads ← field es path "thread_ids" p.showsThreads truth
  return { level, layout, destination, filePath, filters, showsThreads, showsLocations }

/-- The item at a position, or what stands for it where the list has ended. -/
def item (source : Provenance) (ds : List Datum) (path : List String) (n : Nat) (missing : α)
    (read : Reader α) : Except Misfit α :=
  match ds[n]? with
  | some d => read (path ++ [toString n]) (.ofDatum source d)
  | none => .ok missing

/-- The preferences in a list of fields. -/
def preferencesFrom (source : Provenance) (path : List String) (ds : List Datum) :
    Except Misfit Log.Preferences := do
  let p : Log.Preferences := {}
  let level ← item source ds path 0 p.level level
  let layout ← item source ds path 1 p.layout layout
  let destination ← item source ds path 2 p.destination destination
  let filePath ← item source ds path 3 p.filePath (given filePath)
  let filters ← item source ds path 4 p.filters filters
  let showsThreads ← item source ds path 5 p.showsThreads truth
  let showsLocations ← item source ds path 6 p.showsLocations truth
  return { level, layout, destination, filePath, filters, showsThreads, showsLocations }

def preferences : Reader Log.Preferences
  | path, .table _ es => preferencesIn path es
  | path, .plain s (.list ds) => preferencesFrom s path ds
  | path, t => refuse "struct LoggingConfig" path t

/-- The settings in some entries. -/
def settings (es : List (String × Tree)) : Except Misfit Settings := do
  let s : Settings := {}
  let logging ← field es [] "logging" s.logging preferences
  let outDir ← field es [] "out_dir" s.outDir (given filePath)
  let announcesSources ← field es [] "rerun_if_changed" s.announcesSources truth
  return { outDir, announcesSources, logging }

end Extraction

/-! ## Settings as data -/

namespace Log.Preferences

/-- The data that preferences are: all fields, but for a file path that is not given. -/
def datum (p : Preferences) : Datum :=
  .table
    ([("level", .text p.level.name), ("format", .text p.layout.name),
      ("output", .text p.destination.name)] ++
      (p.filePath.map fun f => ("file_path", Datum.text f)).toList ++
      [("filters", .table (p.filters.map fun f => (f.1, .text f.2.name))),
       ("thread_ids", .truth p.showsThreads), ("file_location", .truth p.showsLocations)])

end Log.Preferences

namespace Settings

/-- The data that settings are: all fields, but for an output directory that is not given. -/
def entries (s : Settings) : List (String × Datum) :=
  (s.outDir.map fun d => ("out_dir", Datum.text d)).toList ++
    [("rerun_if_changed", .truth s.announcesSources), ("logging", s.logging.datum)]

end Settings

end CommandBot
