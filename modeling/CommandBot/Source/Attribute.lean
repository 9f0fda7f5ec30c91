import CommandBot.Source.Take

/-
  Attributes. Their arguments stay as written; a marker is an attribute whose path ends in the
  marker's name. `trees` gives an attribute back as tokens.
-/

namespace CommandBot

/-- What an attribute holds behind its path. -/
inductive Arguments where
  | absent
  /-- tokens in brackets -/
  | listed (delimiter : Delimiter) (content : List TokenTree) (span : Span)
  /-- an expression behind `=` -/
  | assigned (sign value : List TokenTree)

/-- An attribute of what follows it or of what encloses it. -/
structure Attribute where
  /-- `#`, or `#` and `!` -/
  signs : List TokenTree
  path : List TokenTree
  arguments : Arguments
  bracketSpan : Span

namespace Attribute

open Grammar

/-- Whether the attribute is about what encloses it. -/
def isInner (a : Attribute) : Bool := a.signs.length == 2

def argumentTrees (a : Attribute) : List TokenTree :=
  match a.arguments with
  | .absent => []
  | .listed d content s => [.group d content s]
  | .assigned sign value => sign ++ value

def trees (a : Attribute) : List TokenTree :=
  a.signs ++ [.group .bracket (a.path ++ a.argumentTrees) a.bracketSpan]

def span (a : Attribute) : Span := TokenTree.spanOf a.trees

/-- Whether the path of the attribute ends in this name. -/
def isMarker (a : Attribute) (name : String) : Bool :=
  match a.path.getLast? with
  | some (.word w) => w.text == name
  | _ => false

/-- The last word of the attribute's path is this name. -/
def EndsIn (a : Attribute) (name : String) : Prop :=
  ∃ before w, a.path = before ++ [.word w] ∧ w.text = name

/-- Whether the path of the attribute is this name alone. -/
def isNamed (a : Attribute) (name : String) : Bool :=
  match a.path with
  | [.word w] => w.text == name
  | _ => false

/-- Whether the attribute documents what it is attached to. -/
def isDoc (a : Attribute) : Bool := a.isNamed "doc"

/-- The attribute `#[name]`, or `#[name(args)]` if there are arguments, as the generator makes it. -/
def make (name : String) (args : List TokenTree) : Attribute where
  signs := TokenTree.operator ['#']
  path := [.made name]
  arguments := if args.isEmpty then .absent else .listed .parenthesis args .generated
  bracketSpan := .generated

/-- The content of an attribute's brackets: its path and its arguments. -/
def takeContent : Take (List TokenTree × Arguments) := do
  let path ← Take.piece (.ifAhead (wordAhead "unsafe") (word "unsafe") plainPath)
  let arguments ← fun
    | [.group d content s] => some (Arguments.listed d content s, [])
    | [] => some (.absent, [])
    | ts => (do
      let sign ← Take.piece (op "=")
      let value ← Take.piece Grammar.expression
      pure (.assigned sign value) : Take Arguments) ts
  pure (path, arguments)

def take (signs : Syntax) : Take Attribute := do
  let signs ← Take.piece signs
  let ((path, arguments), bracketSpan) ← Take.within .bracket takeContent
  pure { signs, path, arguments, bracketSpan }

/-- The attributes before an item. -/
def takeOuter : Take (List Attribute) := Take.many (operatorAhead "#") (take (op "#"))

/-- The attributes at the beginning of a block. -/
def takeInner : Take (List Attribute) := Take.many innerAhead (take (.seq (op "#") (op "!")))

def treesOf (as : List Attribute) : List TokenTree := as.flatMap trees

theorem isMarker_iff (a : Attribute) (name : String) : a.isMarker name = true ↔ a.EndsIn name := by
  unfold isMarker EndsIn
  split
  · rename_i w hlast
    obtain ⟨before, hpath⟩ := List.getLast?_eq_some_iff.mp hlast
    rw [beq_iff_eq]
    constructor
    · exact fun h => ⟨before, w, hpath, h⟩
    · rintro ⟨before', w', hpath', h⟩
      rw [hpath', List.getLast?_concat] at hlast
      cases hlast
      exact h
  · rename_i hnot
    refine iff_of_false Bool.false_ne_true ?_
    rintro ⟨before, w, hpath, -⟩
    refine hnot w ?_
    rw [hpath, List.getLast?_concat]

theorem isMarker_make (name : String) (args : List TokenTree) :
    (make name args).isMarker name = true := by
  simp [isMarker, make, TokenTree.made, Word.made]

theorem treesOf_append (as bs : List Attribute) : treesOf (as ++ bs) = treesOf as ++ treesOf bs := by
  simp [treesOf]

end Attribute

end CommandBot
