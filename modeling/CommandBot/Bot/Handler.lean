import CommandBot.Bot.Declaration
import CommandBot.Bot.Template

/-
  Handlers. A command becomes a handler when it keeps the contract of one: a name that is free,
  none of the qualifications that a plain call could not honour, a result, and at most the
  receiver and the event as parameters. `CommandFault` lists the ways to break it, and the first
  one broken is reported.
-/

namespace CommandBot

/-- How a handler reaches the command's method. -/
inductive Delegate where
  /-- through the bot that the dispatcher owns -/
  | instance_
  /-- through the type, since the method has no receiver -/
  | associated (owner : WrittenType)

/-- A method of the dispatcher that passes a message on to a command. -/
structure Handler where
  name : Word
  delegate : Delegate
  forwardsEvent : Bool
  /-- the arrow and the type of the command's result, which becomes the reply -/
  output : List TokenTree
  docs : List Attribute

namespace Handler

/-- Names of the members that every dispatcher has. -/
def reservedNames : List String := ["new", "bot", "run", "run_with", "on_message", "default"]

/-- What comes before a command's name in the messages that call it. -/
def keyMark : String := "!"

/-- The message content that calls the handler. -/
def key (h : Handler) : String := keyMark ++ h.name.text

/-! ## The contract -/

/-- Whether a receiver is `&self`, whatever its lifetime. -/
def isPlainReceiver : ParameterForm → Bool
  | .receiver reference mutability _ annotation =>
    !reference.isEmpty && mutability.isEmpty && annotation.isEmpty
  | .typed _ _ => false

/-- Whether a parameter takes the event by shared reference. -/
def takesSharedReference (p : Parameter) : Bool :=
  match p.form with
  | .typed _ type => type.isSharedReference
  | .receiver .. => false

/-- What is wrong with a command's name and qualifications, and where. -/
def qualificationFault? (s : Signature) : Option (CommandFault × Span) :=
  if reservedNames.contains s.name.text then some (.reservedName, s.name.span)
  else if !s.asyncness.isEmpty then some (.asynchronous, TokenTree.spanOf s.asyncness)
  else if !s.generics.isEmpty then some (.generic, TokenTree.spanOf s.generics)
  else if !s.unsafety.isEmpty then some (.notSafe, TokenTree.spanOf s.unsafety)
  else if !s.abi.isEmpty then some (.foreignAbi, TokenTree.spanOf s.abi)
  else if !s.variadic.isEmpty then some (.variadic, TokenTree.spanOf s.variadic)
  else none

/-- What is wrong with a command's result, and where. -/
def outputFault? (s : Signature) : Option (CommandFault × Span) :=
  match s.output with
  | none => some (.noReply, s.inputsSpan.last)
  | some (_, type) => if type.isUnit then some (.noReply, type.span) else none

/-- The parameters of a signature, and those behind its receiver. -/
def parameters (s : Signature) : List Parameter := s.inputs.map Prod.fst

/-- The receiver of a command, if it has one, and its other parameters. -/
def splitReceiver : List Parameter → Option Parameter × List Parameter
  | p :: rest => if p.isReceiver then (some p, rest) else (none, p :: rest)
  | [] => (none, [])

/-- What is wrong with a command's parameters, and where. -/
def parameterFault? (s : Signature) : Option (CommandFault × Span) :=
  let (receiver, others) := splitReceiver (parameters s)
  match receiver.filter fun r => !isPlainReceiver r.form with
  | some r => some (.receiver, r.span)
  | none =>
    match others with
    | [] => none
    | [p] => if takesSharedReference p then none else some (.parameterType, p.span)
    | _ :: p :: _ => some (.tooManyParameters, p.span)

/-- The first way in which a signature breaks the contract, and where. -/
def fault? (s : Signature) : Option (CommandFault × Span) :=
  (qualificationFault? s).or ((outputFault? s).or (parameterFault? s))

/-! ## Synthesis -/

/-- The handler of a command that keeps the contract. -/
def ofSound (c : Command) : Handler :=
  let (receiver, others) := splitReceiver (parameters c.signature)
  { name := c.name
    delegate := if receiver.isSome then .instance_ else .associated c.owner
    forwardsEvent := !others.isEmpty
    output := c.signature.outputTrees
    docs := c.docs }

def synthesizedEvent (name : Word) : Log.Event where
  level := .trace
  target := "magicord_processor::handler"
  message := "Synthesized handler"
  fields := [("command", .plain name.text)]

/-- The handler of a command. -/
def ofCommand (c : Command) : Logged (Except Fault Handler) :=
  match fault? c.signature with
  | some (fault, span) =>
    pure (.error (.malformed c.owner.display (.command c.name.text fault) span))
  | none => do
    Logged.log (synthesizedEvent c.name)
    return .ok (ofSound c)

/-! ## Code -/

open Template

/-- The arguments with which a handler calls its command. -/
def arguments (h : Handler) : List TokenTree := if h.forwardsEvent then words ["event"] else []

/-- The call of the command. -/
def callTrees (h : Handler) : List TokenTree :=
  match h.delegate with
  | .instance_ => words ["self"] ++ dot ++ words ["bot"] ++ dot ++ [.word h.name] ++ parens h.arguments
  | .associated owner => angles owner.trees ++ pathMark ++ [.word h.name] ++ parens h.arguments

/-- The handler as a method. -/
def trees (h : Handler) : List TokenTree :=
  Attribute.treesOf h.docs ++ words ["fn"] ++ [.word h.name] ++
    parens
      (receiver ++ comma ++ words [if h.forwardsEvent then "event" else "_event"] ++ sign ':' ++
        sign '&' ++ library ["MessageCreateEvent"]) ++
    h.output ++ braces h.callTrees

end Handler

end CommandBot
