/-
  Reading characters from the front of a text. A scan takes some and answers with what they mean,
  or fails; of two alternatives the second begins where the first did. `many` ends because what it
  repeats takes at least one character each time, or it stops.
-/

namespace CommandBot

/-- Takes characters from the front of a text. -/
abbrev Scan (α : Type) := StateT (List Char) Option α

namespace Scan

variable {α : Type}

/-- Takes a character that passes a test. -/
def one (test : Char → Bool) : Scan Char
  | c :: rest => if test c then some (c, rest) else none
  | [] => none

def char (c : Char) : Scan Unit := discard (one (· == c))

/-- Takes exactly these characters. -/
def exactly (s : String) : Scan Unit := fun cs =>
  (s.toList.isPrefixOf? cs).map fun rest => ((), rest)

/-- Takes characters while a test holds. -/
def takeWhile (test : Char → Bool) : Scan (List Char) := fun cs =>
  some (cs.takeWhile test, cs.dropWhile test)

def skipWhile (test : Char → Bool) : Scan Unit := discard (takeWhile test)

/-- Takes at least one character while a test holds. -/
def someWhile (test : Char → Bool) : Scan (List Char) := do
  let c ← one test
  return c :: (← takeWhile test)

/-- The next character, which stays. -/
def peek : Scan (Option Char) := fun cs => some (cs.head?, cs)

/-- Holds at the end of the text only. -/
def atEnd : Scan Unit
  | [] => some ((), [])
  | _ :: _ => none

def optional (s : Scan α) : Scan (Option α) := fun cs =>
  match s cs with
  | some (a, rest) => some (some a, rest)
  | none => some (none, cs)

/-- Takes as many characters that pass a test. -/
def times (test : Char → Bool) : Nat → Scan (List Char)
  | 0 => pure []
  | n + 1 => do
    let c ← one test
    return c :: (← times test n)

/-- Repeats a scan until it fails or takes nothing, at most so often. -/
def manyUpTo (s : Scan α) : Nat → Scan (List α)
  | 0 => pure []
  | n + 1 => fun cs =>
    match s cs with
    | some (a, rest) =>
      if rest.length < cs.length then (manyUpTo s n rest).map fun r => (a :: r.1, r.2)
      else some ([], cs)
    | none => some ([], cs)

/-- Repeats a scan until it fails or takes nothing. -/
def many (s : Scan α) : Scan (List α) := fun cs => manyUpTo s cs.length cs

/-- What a whole text means. -/
def all? (s : Scan α) (cs : List Char) : Option α :=
  match s cs with
  | some (a, []) => some a
  | _ => none

theorem all?_eq_some {s : Scan α} {cs : List Char} {a : α} :
    all? s cs = some a ↔ s cs = some (a, []) := by
  unfold all?
  split
  · rename_i h; simp [h]
  · rename_i h
    constructor
    · intro h'; cases h'
    · intro h'; exact absurd h' (h a)

end Scan

end CommandBot
