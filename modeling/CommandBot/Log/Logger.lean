import CommandBot.Log.Directive
import CommandBot.Log.Layout

/-
  Loggers: which events are written, how, and where.
-/

namespace CommandBot.Log

/-- Where a log goes. -/
inductive Destination where
  | stdout
  | stderr
  | file
deriving DecidableEq, Repr

def Destination.name : Destination → String
  | .stdout => "stdout"
  | .stderr => "stderr"
  | .file => "file"

def Destination.all : List Destination := [.stdout, .stderr, .file]

/-- What a logger writes to. -/
inductive Outlet where
  | stdout
  | stderr
  | file (path : String)
deriving DecidableEq, Repr

/-- Writes the events that pass. -/
structure Logger where
  filter : Filter
  layout : Layout
  details : Details
  outlet : Outlet
deriving DecidableEq, Repr

/-- What is written where; all files are one stream, since a run has one logger. -/
structure Streams where
  stdout : String := ""
  stderr : String := ""
  file : String := ""
deriving DecidableEq, Repr

namespace Streams

/-- Adds a text to what is written to an outlet. -/
def write (s : Streams) (o : Outlet) (text : String) : Streams :=
  match o with
  | .stdout => { s with stdout := s.stdout ++ text }
  | .stderr => { s with stderr := s.stderr ++ text }
  | .file _ => { s with file := s.file ++ text }

end Streams

namespace Logger

/-- The text of an event, which is empty where it does not pass. -/
def text (l : Logger) (st : Stamps) (e : Event) : String :=
  match l.filter.applied? e with
  | some e => l.layout.text l.details st e
  | none => ""

end Logger

end CommandBot.Log
