/-
  Paths as texts, with `/` between names. A path that begins at the root replaces whatever it is
  added to. `route` is the way that a path goes; `steps` leaves out what does not move, and two
  texts with the same steps are the same path.
-/

namespace CommandBot

/-- One step of the way to a file. -/
inductive Step where
  | root
  | here
  | up
  | name (s : String)
deriving DecidableEq, Repr

namespace Step

def text : Step → String
  | .root => "/"
  | .here => "."
  | .up => ".."
  | .name s => s

/-- Steps to names come last, in the order of the names. -/
def rank : Step → Nat
  | .root => 0
  | .here => 1
  | .up => 2
  | .name _ => 3

/-- Whether a step comes before or with another one in a sorted list. -/
def le : Step → Step → Bool
  | .name s, .name t => s ≤ t
  | a, b => a.rank ≤ b.rank

end Step

namespace Path

/-- Whether a path begins at the root. -/
def isRooted (p : String) : Bool := p.toList.head? = some '/'

/-- A path, and one more path below it. -/
def push (p q : String) : String :=
  if isRooted q || p.isEmpty then q
  else if p.toList.getLast? = some '/' then p ++ q
  else p ++ "/" ++ q

/-- Some paths, each below the one before. -/
def join (ps : List String) : String := ps.foldl push ""

/-- The parts of a path between the slashes. -/
def parts (p : String) : List String := (p.toList.splitOnP (· == '/')).map String.ofList

/-- The step to one part of a path; an empty part stays where it is. -/
def stepTo (part : String) : Step :=
  if part == "" || part == "." then .here
  else if part == ".." then .up
  else .name part

/-- The way of a path, step by step. -/
def route (p : String) : List Step :=
  if p.isEmpty then []
  else if isRooted p then .root :: (parts p).tail.map stepTo
  else (parts p).map stepTo

/-- The way of a path without the steps that do not move, but for one at its beginning. -/
def steps (p : String) : List Step :=
  match route p with
  | .here :: rest => .here :: rest.filter (· != .here)
  | way => way.filter (· != .here)

/-- A path that takes these steps. -/
def ofSteps (way : List Step) : String := join (way.map Step.text)

/-- The steps to what contains a path, if anything does. -/
def parent? (p : String) : Option (List Step) :=
  match steps p with
  | [] => none
  | [.root] => none
  | way => some way.dropLast

/-- The last name on a path. -/
def fileName? (p : String) : Option String :=
  match (steps p).getLast? with
  | some (.name s) => some s
  | _ => none

/-- The order of paths: by their steps from the first on. -/
def le : List Step → List Step → Bool
  | [], _ => true
  | _ :: _, [] => false
  | a :: s, b :: t => if a = b then le s t else a.le b

theorem push_of_isRooted {q : String} (p : String) (h : isRooted q = true) : push p q = q := by
  simp [push, h]

theorem push_empty (q : String) : push "" q = q := by
  simp [push]

end Path

end CommandBot
