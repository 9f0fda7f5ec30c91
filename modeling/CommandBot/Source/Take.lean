import CommandBot.Grammar.Rules
import CommandBot.Token.Display
import CommandBot.Token.Lexer

/-
  Reading the parts of a declaration one after the other: each part takes tokens from the front,
  or fails. `Take.all?` runs a part that has to take everything.
-/

namespace CommandBot

/-- Takes a part from the front of some tokens. -/
abbrev Take (α : Type) := StateT (List TokenTree) Option α

namespace Take

open Grammar

variable {α : Type}

/-- The tokens that a grammar reads, as they print. -/
def piece (g : Syntax) : Take (List TokenTree) := fun ts => readBy g ts

/-- Whether a test holds of what is ahead. -/
def ahead (test : Ahead) : Take Bool := fun ts => some (test ts, ts)

def fail : Take α := fun _ => none

/-- Takes one word that passes a test. -/
def wordWhere (test : TokenTree → Bool) : Take Word
  | .word w :: rest => if test (.word w) then some (w, rest) else none
  | _ => none

/-- Takes a group that a part fills: the part and the group's place. -/
def within (d : Delimiter) (part : Take α) : Take (α × Span)
  | .group e content s :: rest =>
    if d = e then
      match part content with
      | some (a, []) => some ((a, s), rest)
      | _ => none
    else none
  | _ => none

/-- Takes parts as often as the test holds, at most so many. -/
def manyUpTo (test : Ahead) (part : Take α) : Nat → Take (List α)
  | 0 => pure []
  | n + 1 => do
    if ← ahead test then
      let a ← part
      let rest ← manyUpTo test part n
      pure (a :: rest)
    else pure []

/-- Takes parts as often as the test holds. -/
def many (test : Ahead) (part : Take α) : Take (List α) := fun ts =>
  manyUpTo test part ts.length ts

/-- The part that some tokens are, if it takes all of them. -/
def all? (part : Take α) (ts : List TokenTree) : Option α :=
  match part ts with
  | some (a, []) => some a
  | _ => none

theorem manyUpTo_zero (test : Ahead) (part : Take α) (ts : List TokenTree) :
    manyUpTo test part 0 ts = some ([], ts) := rfl

theorem all?_eq_some {part : Take α} {ts : List TokenTree} {a : α} :
    all? part ts = some a ↔ part ts = some (a, []) := by
  unfold all?
  split
  · rename_i h; simp [h]
  · rename_i h
    constructor
    · intro h'; cases h'
    · intro h'; exact absurd h' (h a)

end Take

end CommandBot
