import CommandBot.Source.Attribute
import CommandBot.Source.Signature

/-
  Impl blocks and their members. Methods are taken apart, since attributes may be removed from
  them; every other member is kept as its tokens.
-/

namespace CommandBot

/-- A method with its body. The attributes inside the body are among the method's. -/
structure Method where
  attributes : List Attribute
  /-- the visibility, and the word `default` -/
  qualifiers : List TokenTree
  signature : Signature
  statements : List TokenTree
  bodySpan : Span

namespace Method

open Grammar

def trees (m : Method) : List TokenTree :=
  Attribute.treesOf (m.attributes.filter fun a => !a.isInner) ++ m.qualifiers ++
    m.signature.trees ++
    [.group .brace
      (Attribute.treesOf (m.attributes.filter Attribute.isInner) ++ m.statements) m.bodySpan]

/-- The attributes that document the method. -/
def docs (m : Method) : List Attribute := m.attributes.filter Attribute.isDoc

def takeQualifiers : Take (List TokenTree) :=
  Take.piece (.seq visibility (optional defaultAhead (word "default")))

/-- The body of a method: the attributes inside it, and its statements. -/
def takeBody : Take ((List Attribute × List TokenTree) × Span) :=
  Take.within .brace do
    let inner ← Attribute.takeInner
    let statements ← Take.piece (.whileAhead (never atEnd) (.rule .statement))
    return (inner, statements)

def take : Take Method := do
  let outer ← Attribute.takeOuter
  let qualifiers ← takeQualifiers
  let signature ← Signature.take
  let ((inner, statements), bodySpan) ← takeBody
  pure { attributes := outer ++ inner, qualifiers, signature, statements, bodySpan }

end Method

/-- A member of an impl block. -/
inductive Member where
  | method (m : Method)
  | other (trees : List TokenTree)

namespace Member

open Grammar

def trees : Member → List TokenTree
  | .method m => m.trees
  | .other ts => ts

def method? : Member → Option Method
  | .method m => some m
  | .other _ => none

/-- A function without a body, a constant, a type or a macro call is no method. -/
def take : Take Member := fun ts =>
  match Method.take ts with
  | some (m, rest) => some (.method m, rest)
  | none => (readBy implMember ts).map fun r => (.other r.1, r.2)

end Member

/-- An impl block. -/
structure ImplBlock where
  attributes : List Attribute
  /-- the words `default` and `unsafe`, and `impl` itself -/
  words : List TokenTree
  generics : List TokenTree
  /-- the implemented trait, with `!` before it and `for` behind it -/
  implemented : Option (List TokenTree × WrittenType × List TokenTree)
  selfType : WrittenType
  clause : List TokenTree
  members : List Member
  bodySpan : Span

namespace ImplBlock

open Grammar

def implementedTrees (b : ImplBlock) : List TokenTree :=
  match b.implemented with
  | none => []
  | some (polarity, path, forWord) => polarity ++ path.trees ++ forWord

def trees (b : ImplBlock) : List TokenTree :=
  Attribute.treesOf (b.attributes.filter fun a => !a.isInner) ++ b.words ++ b.generics ++
    b.implementedTrees ++ b.selfType.trees ++ b.clause ++
    [.group .brace
      (Attribute.treesOf (b.attributes.filter Attribute.isInner) ++ b.members.flatMap Member.trees)
      b.bodySpan]

/-- The methods of a block, in order. -/
def methods (b : ImplBlock) : List Method := b.members.filterMap Member.method?

/-- The trait and the type of a block; a block for a type alone has no `!`. -/
def takeSubject :
    Take (Option (List TokenTree × WrittenType × List TokenTree) × WrittenType) := do
  let polarity ← Take.piece (optional negativeAhead (op "!"))
  let first ← WrittenType.take true
  if ← Take.ahead (wordAhead "for") then
    let forWord ← Take.piece (word "for")
    if first.lastSegment?.isNone then Take.fail
    return (some (polarity, first, forWord), ← WrittenType.take true)
  if !polarity.isEmpty then Take.fail
  return (none, first)

def takeBody : Take ((List Attribute × List Member) × Span) :=
  Take.within .brace do
    let inner ← Attribute.takeInner
    let members ← Take.many (never atEnd) Member.take
    if !(← Take.ahead atEnd) then Take.fail
    return (inner, members)

def take : Take ImplBlock := do
  let outer ← Attribute.takeOuter
  let words ← Take.piece (all [maybeWord "default", maybeWord "unsafe", word "impl"])
  let generics ← Take.piece implParameters
  let (implemented, selfType) ← takeSubject
  let clause ← Take.piece (.rule .whereClause)
  let ((inner, members), bodySpan) ← takeBody
  pure { attributes := outer ++ inner, words, generics, implemented, selfType, clause, members,
         bodySpan }

/-- The impl block that a text is. -/
def parse? (s : String) : Option ImplBlock := (TokenTree.read? s).bind (Take.all? take)

end ImplBlock

end CommandBot
