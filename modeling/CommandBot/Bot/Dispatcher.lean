import CommandBot.Bot.DispatchTable
import CommandBot.Bot.TokenSource

/-
  Dispatchers: what is generated for a bot. A dispatcher owns the bot, logs in with its token and
  answers each message through its dispatch table. `ofDeclaration` generates one, `trees` is its
  code, and `expand` is what the bot's attribute makes of an impl block.
-/

namespace CommandBot

/-- The dispatcher of one bot. -/
structure Dispatcher where
  namespace_ : String
  name : String
  sourceName : Word
  sourceType : WrittenType
  token : TokenSource
  /-- in the order of the commands -/
  handlers : List Handler
  table : DispatchTable
  origin : Option String

namespace Dispatcher

def assembledEvent (name : String) (handlers : Nat) : Log.Event where
  level := .debug
  target := "magicord_processor::assemble"
  message := "Assembled bot unit"
  fields := [("unit", .plain name), ("handlers", .count handlers)]

/-- Puts a dispatcher together. -/
def assemble (d : Declaration) (hs : List Handler) (t : DispatchTable) :
    Logged (Except Fault Dispatcher) :=
  match TokenSource.ofDeclaration d with
  | .error f => pure (.error f)
  | .ok token => do
    Logged.log (assembledEvent d.unitName hs.length)
    return .ok
      { namespace_ := d.namespace_, name := d.unitName, sourceName := d.name,
        sourceType := d.selfType, token, handlers := hs, table := t, origin := d.origin }

/-- The handlers of some commands, up to the first fault. -/
def synthesizeAll : List Command → Logged (Except Fault (List Handler))
  | [] => pure (.ok [])
  | c :: rest => do
    match ← Handler.ofCommand c with
    | .error f => return .error f
    | .ok h => return (← synthesizeAll rest).map (h :: ·)

/-- The dispatcher of a declared bot. -/
def ofDeclaration (d : Declaration) : Logged (Except Fault Dispatcher) := do
  match ← synthesizeAll d.commands with
  | .error f => return .error f
  | .ok hs => assemble d hs (← DispatchTable.build hs)

/-! ## Code -/

open Template

/-- The documentation of the dispatcher's type. -/
def typeDoc (u : Dispatcher) : String :=
  " Dispatcher generated by Magicord for [`" ++ u.sourceName.text ++ "`]."

/-- The expression for the token. -/
def tokenTrees (u : Dispatcher) : List TokenTree :=
  match u.token with
  | .literal token => textLiteral token
  | .env name =>
    rootPath ["std", "env", "var"] ++ parens (textLiteral name) ++
      call "map_err"
        (sign '|' ++ words ["_"] ++ sign '|' ++ library ["ClientError", "TokenEnv"] ++
          braces
            (words ["var"] ++ sign ':' ++ rootPath ["std", "string", "String", "from"] ++
              parens (textLiteral name) ++ comma)) ++
      sign '?'

def clientResult : List TokenTree := library ["ClientResult"] ++ angles (library ["Client"])

def structTrees (u : Dispatcher) : List TokenTree :=
  attributed (words ["doc"] ++ sign '=' ++ textLiteral u.typeDoc) ++
    words ["pub", "struct", u.name] ++
    braces (words ["bot"] ++ sign ':' ++ u.sourceType.trees ++ comma)

def newTrees (u : Dispatcher) : List TokenTree :=
  doc " Creates the dispatcher around a default-constructed bot." ++
    words ["pub", "fn", "new"] ++ parens [] ++ arrow ++ words ["Self"] ++
    braces
      (words ["Self"] ++
        braces
          (words ["bot"] ++ sign ':' ++
            angles
              (u.sourceType.trees ++ words ["as"] ++ rootPath ["core", "default", "Default"]) ++
            pathMark ++ words ["default"] ++ parens [] ++ comma))

def botTrees (u : Dispatcher) : List TokenTree :=
  doc " The wrapped bot instance." ++
    words ["pub", "fn", "bot"] ++ parens receiver ++ arrow ++ sign '&' ++ u.sourceType.trees ++
    braces (sign '&' ++ words ["self"] ++ dot ++ words ["bot"])

def runTrees : List TokenTree :=
  doc " Logs in through the installed gateway and starts dispatching commands." ++
    words ["pub", "async", "fn", "run"] ++ parens (words ["self"]) ++ arrow ++ clientResult ++
    braces
      (words ["self"] ++
        call "run_with" (library ["ClientBuilder", "new"] ++ parens []) ++
        dot ++ words ["await"])

def runWithTrees (u : Dispatcher) : List TokenTree :=
  doc " Logs in through `builder` and starts dispatching commands." ++
    words ["pub", "async", "fn", "run_with"] ++
    parens
      (words ["self"] ++ comma ++ words ["builder"] ++ sign ':' ++ library ["ClientBuilder"] ++
        comma) ++
    arrow ++ clientResult ++
    braces
      (library ["__private", "tracing", "info"] ++ sign '!' ++
        parens
          (words ["bot"] ++ sign '=' ++ textLiteral u.name ++ comma ++
            textLiteral "Running a bot") ++
        sign ';' ++
        words ["let", "token"] ++ sign '=' ++ u.tokenTrees ++ sign ';' ++
        words ["let", "this"] ++ sign '=' ++ rootPath ["std", "sync", "Arc", "new"] ++
        parens (words ["self"]) ++ sign ';' ++
        words ["builder"] ++ call "set_token" (words ["token"]) ++
        call "add_message_create_listener"
          (words ["move"] ++ sign '|' ++ words ["event"] ++ sign '|' ++ words ["this"] ++
            call "on_message" (words ["event"])) ++
        call "login" [] ++ dot ++ words ["await"])

def implTrees (u : Dispatcher) : List TokenTree :=
  words ["impl", u.name] ++
    braces
      (u.newTrees ++ u.botTrees ++ runTrees ++ u.runWithTrees ++
        u.handlers.flatMap Handler.trees ++ u.table.trees)

def defaultTrees (u : Dispatcher) : List TokenTree :=
  words ["impl"] ++ rootPath ["core", "default", "Default"] ++ words ["for", u.name] ++
    braces
      (words ["fn", "default"] ++ parens [] ++ arrow ++ words ["Self"] ++
        braces (words ["Self"] ++ pathMark ++ words ["new"] ++ parens []))

/-- The dispatcher's code: its type, its members, and its default value. -/
def trees (u : Dispatcher) : List TokenTree := u.structTrees ++ u.implTrees ++ u.defaultTrees

end Dispatcher

namespace Fault

open Template in
/-- Code that makes a compiler report the fault. -/
def trees (f : Fault) : List TokenTree :=
  rootPath ["core", "compile_error"] ++ sign '!' ++ braces (textLiteral f.message)

end Fault

/-- What a bot's attribute makes of an impl block. -/
structure Expansion where
  outcome : Except Fault Dispatcher
  /-- the block without its markers -/
  block : ImplBlock

namespace Expansion

def generated (e : Expansion) : List TokenTree :=
  match e.outcome with
  | .ok u => u.trees
  | .error f => f.trees

/-- The expansion of an attribute with these arguments on a block. -/
def ofAttribute (args : List TokenTree) (b : ImplBlock) : Logged Expansion := do
  match ← Declaration.ofAttribute args b with
  | .error f => return ⟨.error f, b.withoutMarkers⟩
  | .ok d => return ⟨← Dispatcher.ofDeclaration d, b.withoutMarkers⟩

end Expansion

end CommandBot
