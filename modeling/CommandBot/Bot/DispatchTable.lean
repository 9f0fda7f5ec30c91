import CommandBot.Bot.Handler

/-
  Dispatch tables: which message content calls which handler. The first arm with a message's
  content is taken, so an arm whose key stands above it is never reached; `duplicateKeys` lists
  the keys of such arms.
-/

namespace CommandBot

/-- A key, and the handler that it calls. -/
structure Arm where
  key : String
  handler : Word
deriving DecidableEq

/-- The arms, in the order in which a message is matched against them. -/
structure DispatchTable where
  arms : List Arm

namespace DispatchTable

/-- The name of the method that dispatches. -/
def methodName : String := "on_message"

def keys (t : DispatchTable) : List String := t.arms.map Arm.key

/-- The arm that a message's content takes. -/
def route (t : DispatchTable) (content : String) : Option Arm :=
  t.arms.find? fun a => a.key == content

/-- The place of the arm that a message's content takes. -/
def position? (t : DispatchTable) (content : String) : Option Nat :=
  t.arms.findIdx? fun a => a.key == content

/-- The keys that a pass meets again, each the first time that it does: `seen` are the keys that it
has met, `reported` those that it has met again. -/
def metAgain (seen reported : List String) : List String → List String
  | [] => []
  | k :: rest =>
    if !seen.contains k then metAgain (k :: seen) reported rest
    else if !reported.contains k then k :: metAgain seen (k :: reported) rest
    else metAgain seen reported rest

/-- The keys of more than one arm, each once, as one pass over the arms meets them again. -/
def duplicateKeys (t : DispatchTable) : List String := metAgain [] [] t.keys

def ofHandlers (hs : List Handler) : DispatchTable := ⟨hs.map fun h => ⟨h.key, h.name⟩⟩

def duplicateEvent (key : String) : Log.Event where
  level := .warn
  target := "magicord_processor::dispatch"
  message := "Duplicate command key; only the first handler is reachable"
  fields := [("key", .quoted key)]

def builtEvent (t : DispatchTable) : Log.Event where
  level := .debug
  target := "magicord_processor::dispatch"
  message := "Built dispatch table"
  fields := [("arms", .count t.arms.length)]

/-- The table of some handlers, in their order, with a warning for each duplicate key. -/
def build (hs : List Handler) : Logged DispatchTable :=
  let t := ofHandlers hs
  ⟨t, (t.duplicateKeys.map duplicateEvent ++ [t.builtEvent]).map .event⟩

/-! ## Code -/

open Template

/-- What an arm does: it sends what its handler answers, and logs a failure to send. -/
def armBody (a : Arm) : List TokenTree :=
  words ["if", "let"] ++ rootPath ["core", "result", "Result", "Err"] ++ parens (words ["err"]) ++
    sign '=' ++ words ["event"] ++ call "channel" [] ++
    call "send_message"
      (words ["self"] ++ dot ++ [.word a.handler] ++ parens (words ["event"])) ++
    braces
      (library ["__private", "tracing", "error"] ++ sign '!' ++
        parens
          (words ["command"] ++ sign '=' ++ textLiteral a.key ++ comma ++
            words ["error"] ++ sign '=' ++ sign '%' ++ words ["err"] ++ comma ++
            textLiteral "Failed to send reply") ++
        sign ';')

def armTrees (a : Arm) : List TokenTree := textLiteral a.key ++ fatArrow ++ braces (armBody a)

/-- The arm for all other messages. -/
def otherwise : List TokenTree := words ["_"] ++ fatArrow ++ braces []

/-- The match on a message's content. -/
def matchTrees (t : DispatchTable) : List TokenTree :=
  words ["match", "event"] ++ call "message_content" [] ++
    braces (t.arms.flatMap armTrees ++ otherwise)

/-- Leave to have arms that are never reached, where there are some. -/
def allowance (t : DispatchTable) : List TokenTree :=
  if t.duplicateKeys.isEmpty then []
  else attributed (words ["allow"] ++ parens (words ["unreachable_patterns"]))

/-- The method that dispatches. -/
def trees (t : DispatchTable) : List TokenTree :=
  doc " Routes an inbound message to the matching command handler." ++ t.allowance ++
    words ["pub", "fn", methodName] ++
    parens (receiver ++ comma ++ words ["event"] ++ sign ':' ++ sign '&' ++
      library ["MessageCreateEvent"]) ++
    braces t.matchTrees

theorem keys_ofHandlers (hs : List Handler) : (ofHandlers hs).keys = hs.map Handler.key := by
  simp [keys, ofHandlers, Function.comp_def]

theorem value_build (hs : List Handler) : (build hs).value = ofHandlers hs := rfl

end DispatchTable

end CommandBot
