import CommandBot.Log.Event
import CommandBot.Text.Quoted

/-
  The text of a log event. `compact` puts the names of the scopes in front and their fields behind,
  `full` keeps each scope's fields with its name, and `pretty` gives each scope a line of its own,
  the innermost first.
-/

namespace CommandBot.Log

/-- The layout of a log. -/
inductive Layout where
  | compact
  | full
  | pretty
  /-- the same text as `full` -/
  | json
deriving DecidableEq, Repr

def Layout.name : Layout → String
  | .compact => "compact"
  | .full => "full"
  | .pretty => "pretty"
  | .json => "json"

def Layout.all : List Layout := [.compact, .full, .pretty, .json]

/-- What events show besides what they say. -/
structure Details where
  threads : Bool := false
  files : Bool := false
  lines : Bool := false
deriving DecidableEq, Repr

/-- What stands for when, where and in which thread an event was logged. -/
structure Stamps where
  time : String
  location : String
  thread : Nat

namespace Layout

/-- A level in five columns. -/
def levelText : Level → String
  | .trace => "TRACE"
  | .debug => "DEBUG"
  | .info => " INFO"
  | .warn => " WARN"
  | .error => "ERROR"

def valueText : FieldValue → String
  | .quoted s => Text.quote s
  | .plain s => s
  | .count n => toString n

/-- Fields, with a sign behind each name and something between two of them. -/
def fieldsText (sign between : String) (fs : Fields) : String :=
  between.intercalate (fs.map fun f => f.1 ++ sign ++ valueText f.2)

def oneLineFields : Fields → String := fieldsText "=" " "

/-- A text with a blank before it, if there is one. -/
def spaced (s : String) : String := if s.isEmpty then "" else " " ++ s

/-- A number of at least two digits. -/
def twoDigits (n : Nat) : String := if n < 10 then "0" ++ toString n else toString n

def message (e : Event) : String := e.message ++ spaced (oneLineFields e.fields)

def threadText (d : Details) (st : Stamps) : String :=
  if d.threads then "ThreadId(" ++ twoDigits st.thread ++ ") " else ""

/-- Where an event was logged, behind its target. -/
def place (d : Details) (st : Stamps) (target : String) : String :=
  target ++ ":" ++ (if d.files then " " else "") ++
    (if d.files || d.lines then st.location ++ ":" else "") ++ " "

def compactText (d : Details) (st : Stamps) (e : Event) : String :=
  let names := String.join (e.scopes.map fun s => s.name ++ ":")
  st.time ++ " " ++ levelText e.level ++ " " ++ threadText d st ++ names ++
    (if e.scopes.isEmpty then "" else " ") ++ place d st e.target ++ message e ++
    String.join (e.scopes.map fun s => spaced (oneLineFields s.fields)) ++ "\n"

/-- A scope with its fields in braces. -/
def scopeText (s : Scope) : String :=
  s.name ++ (if s.fields.isEmpty then "" else "\x7b" ++ oneLineFields s.fields ++ "\x7d") ++ ":"

def fullText (d : Details) (st : Stamps) (e : Event) : String :=
  st.time ++ " " ++ levelText e.level ++ " " ++ threadText d st ++
    String.join (e.scopes.map scopeText) ++ (if e.scopes.isEmpty then "" else " ") ++
    e.target ++ ": " ++ (if d.files || d.lines then st.location ++ ": " else "") ++ message e ++
    "\n"

/-- The line on file and thread. -/
def prettyPlace (d : Details) (st : Stamps) : String :=
  let thread := if d.threads then "on ThreadId(" ++ toString st.thread ++ ")\n" else ""
  if d.files then "    at " ++ st.location ++ (if d.threads then " " ++ thread else "\n")
  else if d.threads then "    " ++ thread
  else ""

def prettyScope (s : Scope) : String :=
  "    in " ++ s.target ++ "::" ++ s.name ++
    (if s.fields.isEmpty then "" else " with " ++ fieldsText ": " ", " s.fields) ++ "\n"

def prettyText (d : Details) (st : Stamps) (e : Event) : String :=
  "  " ++ st.time ++ " " ++ levelText e.level ++ " " ++ e.target ++ ":" ++
    (if d.lines && !d.files then st.location ++ ":" else "") ++ " " ++ e.message ++
    String.join (e.fields.map fun f => ", " ++ f.1 ++ ": " ++ valueText f.2) ++ "\n" ++
    prettyPlace d st ++ String.join (e.scopes.reverse.map prettyScope) ++ "\n"

/-- The text of an event. -/
def text : Layout → Details → Stamps → Event → String
  | .compact => compactText
  | .full => fullText
  | .pretty => prettyText
  | .json => fullText

end Layout

end CommandBot.Log
