import CommandBot.Grammar.Ahead

/-
  The phrases of the source language that refer to one another, and the phrases around them:
  attributes, visibility, and calls of macros, whose arguments stay as written.
-/

namespace CommandBot

/-- A phrase that has a rule of its own. -/
inductive Phrase where
  /-- a type; with `plus`, bounds may be added to it -/
  | type (plus : Bool)
  /-- a path in a type -/
  | path
  /-- generic arguments in angle brackets -/
  | arguments
  | bound
  | whereClause
  /-- a path in an expression or a pattern -/
  | expressionPath
  /-- an expression; with `braces`, a path may be followed by the fields of a value -/
  | expression (braces : Bool)
  /-- an expression that ends with its own block -/
  | blockLike
  /-- an expression without binary operators -/
  | operand (braces : Bool)
  /-- a pattern with alternatives -/
  | pattern
  /-- a pattern without alternatives -/
  | alternative
  | statement
  /-- an item behind its attributes -/
  | item
  /-- a member of an impl, trait or extern block -/
  | member
  /-- what a `use` brings into scope -/
  | useTree

namespace Grammar

abbrev Syntax := Grammar Phrase

def type : Syntax := .rule (.type true)

/-- A type to which no bounds can be added. -/
def typeNoPlus : Syntax := .rule (.type false)

def expression : Syntax := .rule (.expression true)

/-- An expression before a block. -/
def condition : Syntax := .rule (.expression false)

/-- Segments of a plain path: names and the words for places in the module tree. -/
def plainSegment : TokenTree → Bool
  | .word w => !keywords.contains w.text || ["super", "self", "Self", "crate"].contains w.text
  | _ => false

/-- A path of plain segments. -/
def plainPath : Syntax :=
  all [maybe "::", token plainSegment,
    .whileAhead (operatorAhead "::") (.seq (op "::") (token plainSegment))]

/-- The content of an attribute's brackets. -/
def attributeContent : Syntax :=
  .seq (.ifAhead (wordAhead "unsafe") (word "unsafe") plainPath)
    (cases [(first isAnyGroup, anyGroup), (operatorAhead "=", .seq (op "=") expression)] .nothing)

/-- An attribute of what follows it. -/
def outerAttribute : Syntax := .seq (op "#") (.inside .bracket attributeContent)

/-- An attribute of what encloses it. -/
def innerAttribute : Syntax := all [op "#", op "!", .inside .bracket attributeContent]

def innerAhead : Ahead := both (operatorAhead "#") (second (operatorAhead "!"))

def outerAttributes : Syntax := .whileAhead (operatorAhead "#") outerAttribute

def innerAttributes : Syntax := .whileAhead innerAhead innerAttribute

/-- Statements in braces. -/
def block : Syntax :=
  .inside .brace (.seq innerAttributes (.whileAhead (never atEnd) (.rule .statement)))

/-- What restricts a visibility. -/
def restriction : List TokenTree → Bool
  | [.word w] => ["crate", "self", "super"].contains w.text
  | .word w :: _ :: _ => w.text == "in"
  | _ => false

def restrictionAhead : Ahead
  | .group .parenthesis content _ :: _ => restriction content
  | _ => false

/-- A visibility, if one is written. -/
def visibility : Syntax :=
  optional (wordAhead "pub")
    (.seq (word "pub")
      (optional restrictionAhead
        (.inside .parenthesis (.ifAhead (wordAhead "in") (.seq (word "in") plainPath) anyWord))))

/-- Whether the exclamation mark of a macro call is ahead. -/
def bangAhead : Ahead := both (operatorAhead "!") (never (operatorAhead "!="))

/-- What turns a path into a macro call. -/
def callArguments : Syntax := .seq (op "!") anyGroup

end Grammar

end CommandBot
