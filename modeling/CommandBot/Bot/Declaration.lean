import CommandBot.Bot.Fault
import CommandBot.Log.Logged
import CommandBot.Source.File

/-
  Bot declarations. An impl block declares a bot when its attributes name one, or when one of its
  methods is marked as a command. `Declaration.ofBlock` reads one block, `Declaration.ofFile` finds
  all blocks of a file, also in the modules written out in it. `value_ofItems_append` and
  `ofItem_module` say how a file's declarations follow from its items'.
-/

namespace CommandBot

/-- The attribute that marks an impl block as a bot and holds its configuration. -/
def botMarker : String := "bot"

/-- The attribute that marks a method as a command. -/
def commandMarker : String := "prefix_command"

/-- A method that answers messages. Its body plays no part, since handlers call the method. -/
structure Command where
  /-- the type that the method belongs to -/
  owner : WrittenType
  signature : Signature
  docs : List Attribute

namespace Command

def name (c : Command) : Word := c.signature.name

/-- A method of a type as a command. -/
def ofMethod (owner : WrittenType) (m : Method) : Command := ⟨owner, m.signature, m.docs⟩

end Command

/-- A bot: its type, its configuration and its commands. -/
structure Declaration where
  /-- the modules that the bot stands in, joined by `::` -/
  namespace_ : String
  name : Word
  selfType : WrittenType
  attributes : List Attribute
  /-- in the order of the methods -/
  commands : List Command
  /-- the file that the bot stands in, if it is known -/
  origin : Option String

namespace Method

def isCommand (m : Method) : Bool := m.attributes.any fun a => a.isMarker commandMarker

end Method

namespace Declaration

/-- The name of the dispatcher of a bot. -/
def unitName (d : Declaration) : String := "Magicord" ++ d.name.bare

/-- The name of a bot's type, without generic arguments. -/
def nameOf (t : WrittenType) : Except Fault Word :=
  match t.lastSegment? with
  | some s =>
    if s.arguments.isEmpty then .ok s.word
    else .error (.malformed s.word.text .genericArguments (TokenTree.spanOf s.arguments))
  | none => .error (.malformed t.display .unnamedType t.span)

/-- The commands of a block, in the order of its methods. -/
def commandsOf (b : ImplBlock) : List Command :=
  (b.methods.filter Method.isCommand).map (Command.ofMethod b.selfType)

def resolvedEvent (d : Declaration) : Log.Event where
  level := .trace
  target := "magicord_processor::resolve"
  message := "Resolved bot declaration"
  fields :=
    [("bot", .plain d.name.text), ("namespace", .quoted d.namespace_),
     ("commands", .count d.commands.length)]

/-- The bot that an impl block declares. -/
def ofBlock (b : ImplBlock) (namespace_ : String) (origin : Option String) :
    Logged (Except Fault Declaration) :=
  match nameOf b.selfType with
  | .error f => pure (.error f)
  | .ok name =>
    if b.generics.isEmpty then do
      let d : Declaration :=
        { namespace_, name, selfType := b.selfType, attributes := b.attributes,
          commands := commandsOf b, origin }
      Logged.log d.resolvedEvent
      return .ok d
    else pure (.error (.malformed name.text .genericBlock (TokenTree.spanOf b.generics)))

/-- The bot that an attribute with these arguments declares on an impl block. -/
def ofAttribute (args : List TokenTree) (b : ImplBlock) : Logged (Except Fault Declaration) :=
  match b.implemented with
  | some (_, path, _) => pure (.error (.malformed b.selfType.display .traitBlock path.span))
  | none => do
    let found ← ofBlock b "" none
    return found.map fun d => { d with attributes := .make botMarker args :: d.attributes }

/-! ## Whole files -/

/-- Whether a block declares a bot, well or badly. -/
def isCandidate (b : ImplBlock) : Bool :=
  b.implemented.isNone &&
    (b.attributes.any (fun a => a.isMarker botMarker) || b.methods.any Method.isCommand)

/-- The namespace of a module in another one. -/
def joinNamespace (outer inner : String) : String :=
  if outer.isEmpty then inner else outer ++ "::" ++ inner

mutual

/-- The bots that an item declares. -/
def ofItem (namespace_ : String) (origin : Option String) :
    Item → Logged (List (Except Fault Declaration))
  | .block b =>
    if isCandidate b then do return [← ofBlock b namespace_ origin] else pure []
  | .module name items => ofItems (joinNamespace namespace_ name) origin items
  | .other => pure []

/-- The bots that some items declare, in order. -/
def ofItems (namespace_ : String) (origin : Option String) :
    List Item → Logged (List (Except Fault Declaration))
  | [] => pure []
  | i :: rest => do
    let found ← ofItem namespace_ origin i
    return found ++ (← ofItems namespace_ origin rest)

end

def fileEvent (namespace_ : String) (count : Nat) : Log.Event where
  level := .debug
  target := "magicord_processor::resolve"
  message := "Resolved bot declarations"
  fields := [("namespace", .quoted namespace_), ("count", .count count)]

/-- The bots that a file declares, in order. -/
def ofFile (f : SourceFile) (namespace_ : String) (origin : Option String) :
    Logged (List (Except Fault Declaration)) := do
  let found ← ofItems namespace_ origin f.items
  Logged.log (fileEvent namespace_ found.length)
  return found

theorem ofItems_nil (n : String) (o : Option String) : ofItems n o [] = pure [] := by
  simp [ofItems]

theorem value_ofItems_cons (n : String) (o : Option String) (i : Item) (rest : List Item) :
    (ofItems n o (i :: rest)).value = (ofItem n o i).value ++ (ofItems n o rest).value := by
  simp [ofItems]

theorem value_ofItems_append (n : String) (o : Option String) (s t : List Item) :
    (ofItems n o (s ++ t)).value = (ofItems n o s).value ++ (ofItems n o t).value := by
  induction s with
  | nil => simp [ofItems_nil]
  | cons i s ih => simp [value_ofItems_cons, ih]

theorem ofItem_module (n : String) (o : Option String) (m : String) (items : List Item) :
    ofItem n o (.module m items) = ofItems (joinNamespace n m) o items := by
  simp [ofItem]

end Declaration

/-! ## Markers -/

namespace Method

/-- The method without the attributes that mark a command. -/
def withoutMarkers (m : Method) : Method :=
  { m with attributes := m.attributes.filter fun a => !a.isMarker commandMarker }

end Method

namespace Member

def withoutMarkers : Member → Member
  | .method m => .method m.withoutMarkers
  | .other ts => .other ts

end Member

namespace ImplBlock

/-- The block without the attributes that mark a bot and its commands. -/
def withoutMarkers (b : ImplBlock) : ImplBlock :=
  { b with
    attributes := b.attributes.filter fun a => !a.isMarker botMarker
    members := b.members.map Member.withoutMarkers }

end ImplBlock

theorem Method.isCommand_withoutMarkers (m : Method) : m.withoutMarkers.isCommand = false := by
  simp [Method.isCommand, Method.withoutMarkers]

end CommandBot
