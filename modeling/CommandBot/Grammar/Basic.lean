import CommandBot.Token.Basic

/-
  Grammars as data. A grammar reads a list of tokens from the front and answers with the tokens as
  they print and with the rest. It prints what it reads, with two liberties: the signs of an
  operator become one unit, and in a list of type parameters the lifetimes come first. `read` is
  the one reader of all grammars; `loop_zero` and `loop_succ` unfold its repetitions.
-/

namespace CommandBot

/-- Looks at the tokens ahead. -/
abbrev Ahead := List TokenTree → Bool

/-- Reads from the front: the tokens as they print, and the rest. -/
abbrev Reader := List TokenTree → Option (List TokenTree × List TokenTree)

/-- A grammar over rules named by `R`. -/
inductive Grammar (R : Type) where
  | nothing
  | fail
  /-- one token, which prints as the answer says -/
  | leaf (accepts : TokenTree → Option (List TokenTree))
  /-- the signs of an operator, all but the last joint to the next -/
  | operator (signs : List Char)
  | lifetime
  /-- a group that the content fills -/
  | inside (d : Delimiter) (content : Grammar R)
  | seq (first second : Grammar R)
  | ifAhead (test : Ahead) (yes no : Grammar R)
  | whileAhead (test : Ahead) (body : Grammar R)
  | rule (name : R)
  /-- what the grammar reads, printed as it was written unless the test holds of how it prints -/
  | writtenUnless (test : List TokenTree → Bool) (body : Grammar R)
  /-- what the grammar reads, or nothing if it is one token alone -/
  | unlessAlone (body : Grammar R)
  /-- type parameters in angle brackets -/
  | parameters (one : Grammar R)

namespace Grammar

/-! ## Single tokens -/

/-- Reads the signs of an operator. -/
def readOperator : List Char → Reader
  | [], ts => some ([], ts)
  | [c], .mark d _ s :: rest => if c = d then some ([.mark d .alone s], rest) else none
  | c :: cs, .mark d .joint s :: rest =>
    if c = d then (readOperator cs rest).map fun r => (.mark d .joint s :: r.1, r.2) else none
  | _, _ => none

/-- Reads an apostrophe and the word joined to it. -/
def readLifetime : Reader
  | .mark '\'' .joint s :: .word w :: rest => some ([.mark '\'' .joint s, .word w], rest)
  | _ => none

/-! ## Repetition -/

/-- Reads `body` as often as the test holds, at most so many times. -/
def loop (test : Ahead) (body : Reader) : Nat → Reader
  | 0, ts => some ([], ts)
  | n + 1, ts =>
    if test ts then
      (body ts).bind fun r => (loop test body n r.2).map fun q => (r.1 ++ q.1, q.2)
    else some ([], ts)

/-! ## Type parameters -/

/-- Reads parameters up to the closing angle bracket: each with the comma after it. -/
def readParameters (one : Reader) :
    Nat → List TokenTree → Option (List (List TokenTree × List TokenTree) × List TokenTree)
  | 0, _ => none
  | n + 1, ts =>
    match ts with
    | .mark '>' _ _ :: _ => some ([], ts)
    | _ =>
      (one ts).bind fun r =>
        match r.2 with
        | .mark ',' _ s :: rest =>
          (readParameters one n rest).map fun q => ((r.1, [.mark ',' .alone s]) :: q.1, q.2)
        | .mark '>' _ _ :: _ => some ([(r.1, [])], r.2)
        | _ => none

/-- Whether a parameter is a lifetime, its attributes aside. -/
def isLifetimeParameter : List TokenTree → Bool
  | .mark '#' _ _ :: .group _ _ _ :: rest => isLifetimeParameter rest
  | .mark '\'' _ _ :: _ => true
  | _ => false

/-- The lifetimes first, then the others; a comma is added where none separates the two. -/
def arrange (ps : List (List TokenTree × List TokenTree)) : List TokenTree :=
  let lifetimes := ps.filter fun p => isLifetimeParameter p.1
  let others := ps.filter fun p => !isLifetimeParameter p.1
  let joined := (lifetimes.getLast?.map fun p => p.2.isEmpty).getD false && !others.isEmpty
  lifetimes.flatMap (fun p => p.1 ++ p.2) ++
    (if joined then [.mark ',' .alone .generated] else []) ++
    others.flatMap fun p => p.1 ++ p.2

/-- Reads parameters with their angle brackets; without parameters the brackets do not print. -/
def readGenerics (one : Reader) : Reader
  | .mark '<' _ s :: rest =>
    match readParameters one (rest.length + 1) rest with
    | some (ps, .mark '>' _ e :: rest) =>
      if ps.isEmpty then some ([], rest)
      else some ([.mark '<' .alone s] ++ arrange ps ++ [.mark '>' .alone e], rest)
    | _ => none
  | ts => some ([], ts)

/-! ## The reader -/

variable {R : Type}

/-- Reads by a grammar whose rules are read by `call`. -/
def read (call : R → Reader) : Grammar R → Reader
  | .nothing, ts => some ([], ts)
  | .fail, _ => none
  | .leaf accepts, ts =>
    match ts with
    | t :: rest => (accepts t).map fun printed => (printed, rest)
    | [] => none
  | .operator signs, ts => readOperator signs ts
  | .lifetime, ts => readLifetime ts
  | .inside d content, ts =>
    match ts with
    | .group e inner s :: rest =>
      if d = e then
        match content.read call inner with
        | some (printed, []) => some ([.group d printed s], rest)
        | _ => none
      else none
    | _ => none
  | .seq first second, ts =>
    (first.read call ts).bind fun r => (second.read call r.2).map fun q => (r.1 ++ q.1, q.2)
  | .ifAhead test yes no, ts => if test ts then yes.read call ts else no.read call ts
  | .whileAhead test body, ts => loop test (body.read call) ts.length ts
  | .rule name, ts => call name ts
  | .writtenUnless test body, ts =>
    (body.read call ts).map fun r =>
      (if test r.1 then r.1 else ts.take (ts.length - r.2.length), r.2)
  | .unlessAlone body, ts =>
    (body.read call ts).map fun r => (if r.1.length = 1 then [] else r.1, r.2)
  | .parameters one, ts => readGenerics (one.read call) ts

/-- Reads by a rule of a system of rules, nested at most so deep. -/
def readRule (rules : R → Grammar R) : Nat → R → Reader
  | 0, _, _ => none
  | n + 1, name, ts => (rules name).read (readRule rules n) ts

theorem loop_zero (test : Ahead) (body : Reader) (ts : List TokenTree) :
    loop test body 0 ts = some ([], ts) := rfl

theorem loop_succ (test : Ahead) (body : Reader) (n : Nat) (ts : List TokenTree) :
    loop test body (n + 1) ts =
      if test ts then
        (body ts).bind fun r => (loop test body n r.2).map fun q => (r.1 ++ q.1, q.2)
      else some ([], ts) := rfl

theorem read_seq_eq (call : R → Reader) (g h : Grammar R) (ts : List TokenTree) :
    (seq g h).read call ts =
      (g.read call ts).bind fun r => (h.read call r.2).map fun q => (r.1 ++ q.1, q.2) := by
  rw [read]

/-! ## Building grammars -/

/-- One grammar after the other. -/
def all : List (Grammar R) → Grammar R
  | [] => .nothing
  | [g] => g
  | g :: rest => .seq g (all rest)

/-- The grammar of the first test that holds. -/
def cases : List (Ahead × Grammar R) → Grammar R → Grammar R
  | [], otherwise => otherwise
  | (test, g) :: rest, otherwise => .ifAhead test g (cases rest otherwise)

/-- The grammar if the test holds, else nothing. -/
def optional (test : Ahead) (g : Grammar R) : Grammar R := .ifAhead test g .nothing

/-- A token that passes a test, printed as it is. -/
def token (test : TokenTree → Bool) : Grammar R :=
  .leaf fun t => if test t then some [t] else none

end Grammar

end CommandBot
