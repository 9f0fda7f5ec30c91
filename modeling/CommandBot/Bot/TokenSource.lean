import CommandBot.Bot.Declaration
import CommandBot.Token.Literal

/-
  The configuration of a bot: where its token comes from. The arguments of the bot's attribute are
  a list of `token = "..."` and `token_env = "..."`, and of the two keys exactly one is to occur;
  a later value for a key replaces an earlier one.
-/

namespace CommandBot

/-- Where a bot's token comes from. -/
inductive TokenSource where
  /-- the token itself -/
  | literal (token : String)
  /-- the name of an environment variable that holds it -/
  | env (variable_ : String)
deriving DecidableEq, Repr

namespace TokenSource

/-- The last value given for each key, with its place. -/
structure Given where
  token : Option (String × Span) := none
  env : Option (String × Span) := none

/-- The path of an argument: its first and last word, and whether it is a single word. -/
structure ArgumentPath where
  first : Word
  last : Word
  isSingle : Bool

abbrev ArgumentError := ArgumentFault × Span

/-- The next token's place, or that of the bracket that closes the arguments. -/
def placeOf (close : Span) : List TokenTree → Span
  | [] => close
  | t :: _ => t.headSpan

/-- The further words of a path behind `::`. -/
def readPathTail (close : Span) (last : Word) :
    List TokenTree → Except ArgumentError (Word × List TokenTree)
  | .mark ':' .joint _ :: .mark ':' _ _ :: .word w :: rest => readPathTail close w rest
  | .mark ':' .joint _ :: .mark ':' _ _ :: rest =>
    .error (.noWord rest.isEmpty, placeOf close rest)
  | ts => .ok (last, ts)

/-- The path of an argument behind an optional `::`. -/
def readPathFrom (close : Span) (isRooted : Bool) :
    List TokenTree → Except ArgumentError (ArgumentPath × List TokenTree)
  | .word w :: rest => do
    let (last, rest') ← readPathTail close w rest
    return (⟨w, last, !isRooted && rest'.length == rest.length⟩, rest')
  | [] => .error (.noArgument, close)
  | ts =>
    .error (if Grammar.literalAhead ts then .literal else .token, placeOf close ts)

def readPath (close : Span) : List TokenTree → Except ArgumentError (ArgumentPath × List TokenTree)
  | .mark ':' .joint _ :: .mark ':' _ _ :: rest => readPathFrom close true rest
  | ts => readPathFrom close false ts

/-- The text behind the `=` of an argument. -/
def readValue (close : Span) :
    List TokenTree → Except ArgumentError ((String × Span) × List TokenTree)
  | .mark '=' _ _ :: rest =>
    match rest with
    | .literal text s :: rest =>
      match Literal.textValue? text.toList with
      | some value => .ok ((String.ofList value, s), rest)
      | none => .error (.noText false, s)
    | rest => .error (.noText rest.isEmpty, placeOf close rest)
  | ts => .error (.noSign, placeOf close ts)

/-- One argument, added to what is given so far. -/
def readArgument (close : Span) (g : Given) (ts : List TokenTree) :
    Except ArgumentError (Given × List TokenTree) := do
  let (path, rest) ← readPath close ts
  if path.isSingle && path.first.text == "token" then
    let (value, rest) ← readValue close rest
    return ({ g with token := some value }, rest)
  else if path.isSingle && path.first.text == "token_env" then
    let (value, rest) ← readValue close rest
    return ({ g with env := some value }, rest)
  else throw (.unknown, path.first.span.join path.last.span)

/-- The arguments up to the end; each takes a token, so their number bounds the steps. -/
def readArguments (close : Span) : Nat → Given → List TokenTree → Except ArgumentError Given
  | _, g, [] => .ok g
  | 0, g, _ => .ok g
  | n + 1, g, ts => do
    let (g, rest) ← readArgument close g ts
    match rest with
    | [] => return g
    | .mark ',' _ _ :: rest => readArguments close n g rest
    | t :: _ => throw (.noComma, t.headSpan)

/-- What the arguments of an attribute give. -/
def given (bot : String) (a : Attribute) : Except Fault Given :=
  match a.arguments with
  | .absent => .ok {}
  | .listed _ content s =>
    match readArguments s.last content.length {} content with
    | .ok g => .ok g
    | .error (fault, place) => .error (.malformed bot (.argument fault) place)
  | .assigned sign value =>
    .error (.malformed bot .assignedArguments (TokenTree.spanOf (a.path ++ sign ++ value)))

/-- The source that the arguments of an attribute choose. -/
def choose (bot : String) (a : Attribute) (g : Given) : Except Fault TokenSource :=
  match g.token, g.env with
  | some (token, _), none => .ok (.literal token)
  | none, some (name, _) => .ok (.env name)
  | some _, some (_, place) => .error (.malformed bot .bothTokens place)
  | none, none => .error (.argumentMissing bot "token" a.span)

/-- The attribute that configures a bot: the first of its markers. -/
def attribute? (d : Declaration) : Option Attribute :=
  d.attributes.find? fun a => a.isMarker botMarker

/-- Where the token of a declared bot comes from. -/
def ofDeclaration (d : Declaration) : Except Fault TokenSource :=
  match attribute? d with
  | none => .error (.configurationMissing d.name.text d.name.span)
  | some a => (given d.name.text a).bind (choose d.name.text a)

end TokenSource

end CommandBot
