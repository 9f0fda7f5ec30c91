import CommandBot.Source.ImplBlock

/-
  Source files: their impl blocks, and the modules written out in them, in order. Other items are
  read and left out.
-/

namespace CommandBot

/-- An item of a file. -/
inductive Item where
  | block (b : ImplBlock)
  | module (name : String) (items : List Item)
  | other

namespace Item

open Grammar

/-- The head of a module that is written out: its attributes, words and name. -/
def takeModuleHead : Take Word := do
  let _ ← Attribute.takeOuter
  let _ ← Take.piece (all [visibility, maybeWord "unsafe", word "mod"])
  let name ← Take.wordWhere isName
  if !(← Take.ahead (groupAhead .brace)) then Take.fail
  return name

/-- Items up to the end of the tokens, modules nested at most so deep. -/
def takeItems : Nat → Take (List Item)
  | 0 => Take.fail
  | n + 1 =>
    Take.many (never atEnd) fun ts =>
      match ImplBlock.take ts with
      | some (b, rest) => some (.block b, rest)
      | none =>
        match takeModuleHead ts with
        | some (name, rest) =>
          (Take.within .brace (do
            let _ ← Attribute.takeInner
            takeItems n) rest).map fun r => (.module name.text r.1.1, r.2)
        | none => (readBy (.seq outerAttributes (.rule .item)) ts).map fun r => (.other, r.2)

end Item

/-- A source file. -/
structure SourceFile where
  items : List Item

namespace SourceFile

/-- A text without the line that names its interpreter, if it begins with one. -/
def withoutShebang (cs : List Char) : List Char :=
  match cs with
  | '#' :: '!' :: rest =>
    match Lexer.skipSeparators rest.length rest with
    | '[' :: _ => cs
    | _ => cs.dropWhile (· != '\n')
  | _ => cs

/-- The tokens of a text that is to be a source file. -/
def tokens? (s : String) : Option (List TokenTree) :=
  Lexer.tokens (withoutShebang (Text.withoutMark s.toList))

/-- The source file that some tokens are. -/
def ofTokens? (trees : List TokenTree) : Option SourceFile := do
  let items ← Take.all? (do
    let _ ← Attribute.takeInner
    Item.takeItems (TokenTree.weightOf trees + 1)) trees
  return ⟨items⟩

/-- The source file that a text is. -/
def parse? (s : String) : Option SourceFile := (tokens? s).bind ofTokens?

end SourceFile

end CommandBot
