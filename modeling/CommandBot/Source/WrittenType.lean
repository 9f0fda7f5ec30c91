import CommandBot.Source.Take

/-
  Types as written: their tokens, and the few questions the generator asks about them. A type that
  begins with `&` is a reference, one that is a pair of empty parentheses is the unit type, and one
  that is a path has a last segment.
-/

namespace CommandBot

/-- A type, as it prints. -/
structure WrittenType where
  trees : List TokenTree

/-- A segment of a path, with its generic arguments as they print. -/
structure Segment where
  word : Word
  arguments : List TokenTree

namespace WrittenType

open Grammar

def display (t : WrittenType) : String := TokenTree.display t.trees

def span (t : WrittenType) : Span := TokenTree.spanOf t.trees

/-- Whether the type is written `()`. -/
def isUnit (t : WrittenType) : Bool :=
  match t.trees with
  | [.group .parenthesis [] _] => true
  | _ => false

/-- Whether the type is written as a shared reference. -/
def isSharedReference (t : WrittenType) : Bool :=
  match t.trees with
  | .mark '&' _ _ :: .mark '\'' _ _ :: _ :: rest => !wordAhead "mut" rest
  | .mark '&' _ _ :: rest => !wordAhead "mut" rest
  | _ => false

def take (plus : Bool) : Take WrittenType := do
  return ⟨← Take.piece (.rule (.type plus))⟩

/-- The generic arguments of a segment, if it has any. -/
def segmentArguments : Syntax :=
  cases
    [(either angleAhead turbofishAhead, .seq (maybe "::") (.rule .arguments)),
     (callAhead, callTypes)]
    .nothing

def takeSegment : Take Segment := do
  let word ← Take.wordWhere segmentWord
  if rootWord [.word word] then return ⟨word, []⟩
  return ⟨word, ← Take.piece segmentArguments⟩

/-- The segments of a path that begins with none in angle brackets. -/
def takeSegments : Take (List Segment) := do
  let _ ← Take.piece (maybe "::")
  let first ← takeSegment
  let rest ← Take.many (operatorAhead "::") (do
    let _ ← Take.piece (op "::")
    takeSegment)
  return first :: rest

/-- The last segment of a type that is a path. -/
def lastSegment? (t : WrittenType) : Option Segment :=
  (Take.all? takeSegments t.trees).bind List.getLast?

end WrittenType

end CommandBot
