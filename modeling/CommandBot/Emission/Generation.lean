import CommandBot.Bot.Namespace
import CommandBot.Emission.Sink

/-
  Generation: from declarations, and from the source files that hold them, to units in a sink. A
  bot that fails takes nothing else with it: the other bots of a file are generated all the same,
  each with a result of its own.
-/

namespace CommandBot

/-- Why a text is no source file. -/
inductive Illegibility where
  /-- it falls into no tokens -/
  | characters
  /-- its tokens are no items -/
  | grammar
deriving DecidableEq, Repr

def Illegibility.message : Illegibility → String
  | .characters => "cannot parse string into token stream"
  | .grammar => "unexpected token"

/-- Why no bots can be looked for in a source file. -/
inductive SourceFault where
  | unreadable (path : String) (fault : FileFault)
  | unparsable (path : String) (cause : Illegibility)
deriving DecidableEq, Repr

def SourceFault.message : SourceFault → String
  | .unreadable path fault => "failed to read `" ++ path ++ "`: " ++ fault.message
  | .unparsable path cause => "failed to parse `" ++ path ++ "`: " ++ cause.message

namespace Generation

/-- The name of what this module logs under. -/
def target : String := "magicord_processor::driver"

def botScope (d : Declaration) : Log.Scope where
  name := "process"
  target := target
  fields := [("bot", .plain d.name.text)]

def fileScope (path : String) : Log.Scope where
  name := "process_file"
  target := target
  fields := [("path", .plain path)]

def failedEvent (f : Fault) : Log.Event where
  level := .error
  target := target
  message := "Failed to generate bot unit"
  fields := [("stage", .quoted f.stage.name), ("error", .plain f.message)]

def unresolvedEvent (f : Fault) : Log.Event where
  level := .error
  target := target
  message := "Failed to resolve bot declaration"
  fields :=
    [("bot", .quoted f.declaration), ("stage", .quoted f.stage.name), ("error", .plain f.message)]

def generatedEvent (u : Dispatcher) : Log.Event where
  level := .info
  target := target
  message := "Generated bot unit"
  fields :=
    [("unit", .plain u.name), ("namespace", .plain u.namespace_),
     ("handlers", .count u.handlers.length)]

/-- Work within a scope. -/
def within {α : Type} (s : Log.Scope) (m : Work α) : Work α := fun w => Logged.within s (m w)

/-- Generates a declared bot and emits its unit, without a report of failure. -/
def attempt (d : Declaration) : Work (Except Fault CodeUnit) := do
  match ← (Dispatcher.ofDeclaration d : Logged _) with
  | .error f => return .error f
  | .ok u =>
    let unit := CodeUnit.ofDispatcher u
    match ← Workspace.emit unit (Dependencies.on u.origin) with
    | .error cause => return .error (.emission d.name.text unit.name cause)
    | .ok _ =>
      (Logged.log (generatedEvent u) : Logged _)
      return .ok unit

/-- Generates a declared bot and emits its unit. -/
def ofDeclaration (d : Declaration) : Work (Except Fault CodeUnit) :=
  within (botScope d) do
    let result ← attempt d
    match result with
    | .error f => (Logged.log (failedEvent f) : Logged _)
    | .ok _ => pure ()
    return result

/-- Generates what was found where a bot is declared. -/
def ofFound : Except Fault Declaration → Work (Except Fault CodeUnit)
  | .ok d => ofDeclaration d
  | .error f => do
    (Logged.log (unresolvedEvent f) : Logged _)
    return .error f

/-- The source file that a text is. -/
def parse (path text : String) : Except SourceFault SourceFile :=
  match SourceFile.tokens? text with
  | none => .error (.unparsable path .characters)
  | some trees =>
    match SourceFile.ofTokens? trees with
    | none => .error (.unparsable path .grammar)
    | some f => .ok f

/-- The source file at a path. -/
def load (files : Files) (path : String) : Except SourceFault SourceFile :=
  match files.read path with
  | .error e => .error (.unreadable path e)
  | .ok text => parse path text

/-- Generates the bots that a source file declares, in order, each with its own result. -/
def ofFile (path : String) : Work (Except SourceFault (List (Except Fault CodeUnit))) :=
  within (fileScope path) do
    match load (← get).files path with
    | .error e => return .error e
    | .ok f =>
      let found ← (Declaration.ofFile f (Namespace.ofPath path) (some path) : Logged _)
      return .ok (← found.mapM ofFound)

end Generation

end CommandBot
