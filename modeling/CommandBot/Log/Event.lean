/-
  Log events: what happened, how much it matters, where it was logged, and the scopes that it
  happened in.
-/

namespace CommandBot

namespace Log

/-- How much an event matters. -/
inductive Level where
  | trace
  | debug
  | info
  | warn
  | error
deriving DecidableEq, Repr

/-- The levels from the least to the most severe. -/
def Level.severity : Level → Nat
  | .trace => 0
  | .debug => 1
  | .info => 2
  | .warn => 3
  | .error => 4

def Level.name : Level → String
  | .trace => "trace"
  | .debug => "debug"
  | .info => "info"
  | .warn => "warn"
  | .error => "error"

def Level.all : List Level := [.trace, .debug, .info, .warn, .error]

/-- The value of a field. -/
inductive FieldValue where
  /-- a text that layouts put in quotes -/
  | quoted (text : String)
  | plain (text : String)
  | count (n : Nat)
deriving DecidableEq, Repr

abbrev Fields := List (String × FieldValue)

/-- What a stretch of events belongs to. -/
structure Scope where
  name : String
  target : String
  fields : Fields
  level : Level := .info
deriving DecidableEq, Repr

/-- One event, with the scopes that it is in, the outermost first. -/
structure Event where
  level : Level
  target : String
  message : String
  fields : Fields := []
  scopes : List Scope := []
deriving DecidableEq, Repr

end Log

end CommandBot
