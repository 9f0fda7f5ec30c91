import CommandBot.Bot.Dispatcher
import CommandBot.Text.Path
import CommandBot.Token.Display

/-
  Units: the code of a dispatcher with the place it belongs to, and the sources it depends on. A
  unit's file lies below the output directory in a directory for each module of its namespace.
-/

namespace CommandBot

/-- Code to be emitted. -/
structure CodeUnit where
  /-- modules joined by `::` -/
  namespace_ : String
  name : String
  trees : List TokenTree

/-- What a unit was generated from. -/
structure Dependencies where
  /-- whether it may depend on sources beyond those listed -/
  isAggregating : Bool := false
  sources : List String := []
deriving DecidableEq, Repr

namespace Dependencies

/-- The dependencies of a unit generated from one file, if it is known. -/
def on (origin : Option String) : Dependencies := ⟨true, origin.toList⟩

end Dependencies

namespace CodeUnit

/-- The unit of a dispatcher. -/
def ofDispatcher (u : Dispatcher) : CodeUnit := ⟨u.namespace_, u.name, u.trees⟩

def fileName (u : CodeUnit) : String := u.name ++ ".rs"

/-- The parts of a text between the pairs of colons in it. -/
def splitColons : List Char → List (List Char)
  | [] => [[]]
  | ':' :: ':' :: rest => [] :: splitColons rest
  | c :: rest =>
    match splitColons rest with
    | [] => [[c]]
    | part :: parts => (c :: part) :: parts

/-- The modules of a namespace. -/
def segments (namespace_ : String) : List String :=
  ((splitColons namespace_.toList).map String.ofList).filter (· != "")

/-- The path of the unit's file below the output directory. -/
def relativePath (u : CodeUnit) : String := Path.push (Path.join (segments u.namespace_)) u.fileName

/-- The text of the unit's file. -/
def render (u : CodeUnit) : String :=
  "// @generated by magicord; do not edit.\n" ++ TokenTree.display u.trees ++ "\n"

theorem splitColons_ne_nil (cs : List Char) : splitColons cs ≠ [] := by
  fun_induction splitColons cs <;> simp

end CodeUnit

end CommandBot
