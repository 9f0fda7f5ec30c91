import CommandBot.Log.Event
import CommandBot.Text.Blank
import CommandBot.Text.Identifier

/-
  Filters of a log. A directive lets events up to some level pass, either all or those of targets
  that begin as it says; of the directives for a target the one with the longest beginning decides.
  A directive for a scope lets events in that scope pass besides.
-/

namespace CommandBot.Log

/-- Lets events up to a level pass. -/
structure Directive where
  /-- how the target of an event begins -/
  target : Option String := none
  /-- the name of a scope around the event -/
  scope : Option String := none
  /-- fields of that scope, with the value that one has to have -/
  fields : List (String × Option String) := []
  /-- the least severe level that passes, if any does -/
  level : Option Level
deriving DecidableEq, Repr

/-- What is wrong with the text of a directive. -/
inductive DirectiveFault where
  | form
  | level
deriving DecidableEq, Repr

def DirectiveFault.message : DirectiveFault → String
  | .form => "invalid filter directive"
  | .level =>
    "error parsing level filter: expected one of \"off\", \"error\", \"warn\", \"info\", " ++
      "\"debug\", \"trace\", or a number 0-5"

namespace Directive

/-! ## Texts -/

/-- The level that a number stands for; zero lets nothing pass. -/
def numbered? : Nat → Option (Option Level)
  | 0 => some none
  | 1 => some (some .error)
  | 2 => some (some .warn)
  | 3 => some (some .info)
  | 4 => some (some .debug)
  | 5 => some (some .trace)
  | _ => none

/-- The number that a text is, with a sign at most. -/
def number? (cs : List Char) : Option Nat :=
  let ds := match cs with
    | '+' :: rest => rest
    | cs => cs
  if ds.isEmpty || !ds.all (fun c => '0' ≤ c && c ≤ '9') then none
  else some (ds.foldl (fun n d => 10 * n + (d.toNat - '0'.toNat)) 0)

/-- The level that a name stands for, in any case. -/
def named? (cs : List Char) : Option (Option Level) :=
  let name := String.ofList (cs.map Char.toLower)
  if name == "" then some (some .error)
  else if name == "off" then some none
  else (Level.all.find? fun l => l.name == name).map some

/-- The level that a text stands for. -/
def level? (cs : List Char) : Option (Option Level) :=
  ((number? cs).bind numbered?).or (named? cs)

/-- A level behind a sign; where nothing follows, all events pass. -/
def levelBehind (cs : List Char) : Except DirectiveFault (Option Level) :=
  if cs.isEmpty then .ok (some .trace)
  else
    match level? cs with
    | some l => .ok l
    | none => .error .level

/-- A field, with its value behind a sign. -/
def fieldOf (cs : List Char) : String × Option String :=
  match cs.splitOnP (· == '=') with
  | name :: value :: _ => (String.ofList name, some (String.ofList value))
  | _ => (String.ofList cs, none)

/-- Where the reading of a directive stands; positions are those of the part being read. -/
inductive Reading where
  | start
  | levelOrTarget (first : Nat)
  | scope (first : Nat)
  | field (first : Nat)
  | fields
  | behindScope
  | level (first : Nat)
  | complete
deriving DecidableEq, Repr

/-- A directive may begin with a letter, a digit or one of these. -/
def mayBegin (c : Char) : Bool :=
  c == '-' || c == ':' || c == '_' || Text.isIdentifierStart c || ('0' ≤ c && c ≤ '9')

/-- The characters from one position to before another. -/
def slice (cs : List Char) (first past : Nat) : List Char := (cs.take past).drop first

/-- A directive that is a level or else a target. -/
def levelOrTarget (d : Directive) (whole part : List Char) : Directive :=
  match level? whole with
  | some l => { d with level := l }
  | none => { d with target := some (String.ofList part), level := some .trace }

/-- Reads the character at a position. -/
def step (cs : List Char) (i : Nat) (c : Char) (d : Directive) :
    Reading → Except DirectiveFault (Directive × Reading)
  | .start =>
    if c = '[' then .ok (d, .scope (i + 1))
    else if mayBegin c then .ok (d, .levelOrTarget i)
    else .error .form
  | .levelOrTarget first =>
    let target := some (String.ofList (slice cs first i))
    if c = '=' then .ok ({ d with target }, .level (i + 1))
    else if c = '[' then .ok ({ d with target }, .scope (i + 1))
    else if c = ',' then .ok (levelOrTarget d (cs.drop first) (slice cs first i), .complete)
    else .ok (d, .levelOrTarget first)
  | .behindScope => if c = '=' then .ok (d, .level (i + 1)) else .error .form
  | .scope first =>
    let scope := some (String.ofList (slice cs first i))
    if c = ']' then .ok ({ d with scope }, .behindScope)
    else if c = '{' then .ok ({ d with scope }, .field (i + 1))
    else .ok (d, .scope first)
  | .field first =>
    let fields := d.fields ++ [fieldOf (slice cs first i)]
    if c = '}' then .ok ({ d with fields }, .fields)
    else if c = ',' then .ok ({ d with fields }, .field (i + 1))
    else .ok (d, .field first)
  | .fields => if c = ']' then .ok (d, .behindScope) else .error .form
  | .level first =>
    if c = ',' then
      (levelBehind (slice cs first i)).map fun level => ({ d with level }, .complete)
    else .ok (d, .level first)
  | .complete => .error .form

/-- Reads all characters from a position on. -/
def readFrom (cs : List Char) :
    Nat → List Char → Directive × Reading → Except DirectiveFault (Directive × Reading)
  | _, [], r => .ok r
  | i, c :: rest, (d, r) => do readFrom cs (i + 1) rest (← step cs i c d r)

/-- The directive that a text is. Positions count from its first character that is not blank, but
parts are cut out of the whole text. -/
def ofText (s : String) : Except DirectiveFault Directive := do
  let cs := s.toList
  match ← readFrom cs 0 (Text.trimBlank cs) ({ level := some .trace }, .start) with
  | (d, .levelOrTarget first) => return levelOrTarget d (cs.drop first) (cs.drop first)
  | (d, .level first) => return { d with level := ← levelBehind (cs.drop first) }
  | (d, .behindScope) => return d
  | (d, .complete) => return d
  | _ => throw .form

/-! ## Passing -/

/-- Whether a directive lets a level pass. -/
def admits (d : Directive) (l : Level) : Bool :=
  match d.level with
  | some least => least.severity ≤ l.severity
  | none => false

/-- Whether a directive is about a target. -/
def isFor (d : Directive) (target : String) : Bool :=
  match d.target with
  | some t => t.toList.isPrefixOf target.toList
  | none => true

/-- How much of a target a directive states. -/
def specificity (d : Directive) : Nat :=
  match d.target with
  | some t => t.utf8ByteSize + 1
  | none => 0

/-- Whether a directive is about a scope. -/
def isAbout (d : Directive) (s : Scope) : Bool :=
  d.scope == some s.name && d.isFor s.target &&
    d.fields.all fun f => f.2.isNone && s.fields.any fun g => g.1 == f.1

end Directive

/-- Directives in the order in which they were given. -/
abbrev Filter := List Directive

namespace Filter

/-- The more specific one of two directives; the later one where they are equally so. -/
def sharper (old new : Directive) : Directive :=
  if new.specificity < old.specificity then old else new

/-- The directive that decides on a target. -/
def deciding? (f : Filter) (target : String) : Option Directive :=
  (f.filter fun d => d.scope.isNone && d.isFor target).foldl
    (fun best d => some ((best.map (sharper · d)).getD d)) none

/-- Whether events of a target and a level pass wherever they happen. -/
def admits (f : Filter) (target : String) (l : Level) : Bool :=
  (f.deciding? target).any fun d => d.admits l

/-- Whether a scope is kept. -/
def keeps (f : Filter) (s : Scope) : Bool :=
  f.admits s.target s.level || f.any fun d => d.isAbout s

/-- Whether an event passes. -/
def passes (f : Filter) (e : Event) : Bool :=
  f.admits e.target e.level ||
    e.scopes.any fun s => f.any fun d => d.isAbout s && d.admits e.level

/-- What a filter leaves of an event. -/
def applied? (f : Filter) (e : Event) : Option Event :=
  if f.passes e then some { e with scopes := e.scopes.filter f.keeps } else none

/-- The filter that a text gives: directives between commas, or errors only where there is none. -/
def ofText (s : String) : Except DirectiveFault Filter := do
  let parts := (s.toList.splitOnP (· == ',')).filter fun p => !p.isEmpty
  let ds ← parts.mapM fun p => Directive.ofText (String.ofList p)
  return if ds.isEmpty then [{ level := some .error }] else ds

theorem passes_of_admits {f : Filter} {e : Event} (h : f.admits e.target e.level = true) :
    f.passes e = true := by
  simp [passes, h]

end Filter

end CommandBot.Log
