import CommandBot.Source.WrittenType

/-
  Signatures of functions: their words, parameters and result, each as it prints. A part that is
  not written has no tokens.
-/

namespace CommandBot

/-- How a parameter is written. -/
inductive ParameterForm where
  /-- `self`, perhaps by reference, mutable, or with a type of its own -/
  | receiver (reference mutability self annotation : List TokenTree)
  /-- a pattern with its colon, and a type -/
  | typed (pattern : List TokenTree) (type : WrittenType)

/-- A parameter with its attributes. -/
structure Parameter where
  attributes : List TokenTree
  form : ParameterForm

namespace Parameter

open Grammar

def trees (p : Parameter) : List TokenTree :=
  p.attributes ++
    match p.form with
    | .receiver reference mutability self annotation =>
      reference ++ mutability ++ self ++ annotation
    | .typed pattern type => pattern ++ type.trees

def span (p : Parameter) : Span := TokenTree.spanOf p.trees

def isReceiver (p : Parameter) : Bool :=
  match p.form with
  | .receiver .. => true
  | .typed .. => false

end Parameter

/-- The signature of a function. -/
structure Signature where
  constness : List TokenTree
  asyncness : List TokenTree
  unsafety : List TokenTree
  abi : List TokenTree
  functionWord : List TokenTree
  name : Word
  /-- the parameters in angle brackets, if there are any -/
  generics : List TokenTree
  /-- each parameter with the comma behind it -/
  inputs : List (Parameter × List TokenTree)
  /-- the dots for further arguments, with all that belongs to them -/
  variadic : List TokenTree
  inputsSpan : Span
  /-- the arrow and the type of the result -/
  output : Option (List TokenTree × WrittenType)
  clause : List TokenTree

namespace Signature

open Grammar

def outputTrees (s : Signature) : List TokenTree :=
  match s.output with
  | none => []
  | some (arrow, type) => arrow ++ type.trees

def inputTrees (s : Signature) : List TokenTree :=
  s.inputs.flatMap (fun p => p.1.trees ++ p.2) ++ s.variadic

def trees (s : Signature) : List TokenTree :=
  s.constness ++ s.asyncness ++ s.unsafety ++ s.abi ++ s.functionWord ++ [.word s.name] ++
    s.generics ++ [.group .parenthesis s.inputTrees s.inputsSpan] ++ s.outputTrees ++ s.clause

/-! ## Reading -/

/-- A receiver behind its attributes. -/
def takeReceiver : Take ParameterForm := do
  let reference ← Take.piece receiverReference
  let mutability ← Take.piece (maybeWord "mut")
  let self ← Take.piece (word "self")
  let annotation ← if reference.isEmpty then Take.piece receiverAnnotation else pure []
  pure (.receiver reference mutability self annotation)

/-- Parameters up to the end; at most the first is a receiver, and dots end the list. -/
def takeInputs : Nat → Bool → Take (List (Parameter × List TokenTree) × List TokenTree)
  | 0, _ => Take.fail
  | n + 1, isFirst => do
    if ← Take.ahead atEnd then return ([], [])
    let attributes ← Take.piece outerAttributes
    let comma := Take.piece (.ifAhead atEnd .nothing (op ","))
    if ← Take.ahead (operatorAhead "...") then
      let dots ← Take.piece (op "...")
      return ([], attributes ++ dots ++ (← comma))
    if ← Take.ahead receiverAhead then
      let form ← takeReceiver
      if !isFirst then Take.fail
      let after ← comma
      let (rest, variadic) ← takeInputs n false
      return ((⟨attributes, form⟩, after) :: rest, variadic)
    let pattern ← Take.piece parameterPattern
    if ← Take.ahead (operatorAhead "...") then
      let dots ← Take.piece (op "...")
      return ([], attributes ++ pattern ++ dots ++ (← comma))
    let type ← WrittenType.take true
    let after ← comma
    let (rest, variadic) ← takeInputs n false
    return ((⟨attributes, .typed pattern type⟩, after) :: rest, variadic)

def takeOutput : Take (Option (List TokenTree × WrittenType)) := do
  if ← Take.ahead (operatorAhead "->") then
    let arrow ← Take.piece (op "->")
    return some (arrow, ← WrittenType.take true)
  return none

def take : Take Signature := do
  let constness ← Take.piece (maybeWord "const")
  let asyncness ← Take.piece (maybeWord "async")
  let unsafety ← Take.piece (maybeWord "unsafe")
  let abi ← Take.piece maybeAbi
  let functionWord ← Take.piece (word "fn")
  let name ← Take.wordWhere isName
  let generics ← Take.piece Grammar.generics
  let ((inputs, variadic), inputsSpan) ←
    Take.within .parenthesis fun ts => takeInputs (ts.length + 1) true ts
  let output ← takeOutput
  let clause ← Take.piece (.rule .whereClause)
  pure { constness, asyncness, unsafety, abi, functionWord, name, generics, inputs, variadic,
         inputsSpan, output, clause }

end Signature

end CommandBot
