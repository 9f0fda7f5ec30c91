import CommandBot.Proofs.Printing

/-
  The syntax trees that stand behind what a grammar reads. Readers answer with tokens only; a parser
  keeps the phrases of these tokens, each with the phrases in it. `parse` follows `read` case by
  case, and what its trees print as is what is read (`printed_parseBy`), so that each list of tokens
  that is read has its trees (`exists_parseBy`).
-/

namespace CommandBot

/-- A phrase as a tree. Where the grammar keeps tokens as they are, the tree does too. -/
inductive SyntaxTree where
  | token (t : TokenTree)
  | lifetime (place : Span) (name : Word)
  | group (d : Delimiter) (content : List SyntaxTree) (place : Span)
  | phrase (name : Phrase) (content : List SyntaxTree)

namespace SyntaxTree

mutual

/-- The tokens of a tree, as they print. -/
def trees : SyntaxTree → List TokenTree
  | .token t => [t]
  | .lifetime s w => [.mark '\'' .joint s, .word w]
  | .group d content s => [.group d (treesOf content) s]
  | .phrase _ content => treesOf content

def treesOf : List SyntaxTree → List TokenTree
  | [] => []
  | t :: rest => t.trees ++ treesOf rest

end

theorem treesOf_nil : treesOf [] = [] := by rw [treesOf]

theorem treesOf_cons (t : SyntaxTree) (rest : List SyntaxTree) :
    treesOf (t :: rest) = t.trees ++ treesOf rest := by rw [treesOf]

theorem treesOf_append (s t : List SyntaxTree) : treesOf (s ++ t) = treesOf s ++ treesOf t := by
  induction s with
  | nil => rw [treesOf_nil, List.nil_append, List.nil_append]
  | cons a s ih => rw [List.cons_append, treesOf_cons, treesOf_cons, ih, List.append_assoc]

theorem treesOf_map_token (ts : List TokenTree) : treesOf (ts.map .token) = ts := by
  induction ts with
  | nil => rw [List.map_nil, treesOf_nil]
  | cons t ts ih => rw [List.map_cons, treesOf_cons, trees, ih, List.singleton_append]

theorem treesOf_singleton (t : SyntaxTree) : treesOf [t] = t.trees := by
  rw [treesOf_cons, treesOf_nil, List.append_nil]

end SyntaxTree

open SyntaxTree

/-- Reads from the front: the trees of what is read, and the rest. -/
abbrev Parser := List TokenTree → Option (List SyntaxTree × List TokenTree)

namespace Parser

open Grammar

/-- What a parser reads, as it prints. -/
def printed (p : Parser) : Reader := fun ts => (p ts).map fun r => (treesOf r.1, r.2)

/-- What a reader reads, taken apart no further. -/
def flat (r : Reader) : Parser := fun ts => (r ts).map fun r => (r.1.map .token, r.2)

theorem printed_flat (r : Reader) : printed (flat r) = r := by
  funext ts
  rw [printed, flat, Option.map_map]
  simp only [Function.comp_def, treesOf_map_token]
  exact Option.map_id'

theorem printed_apply (p : Parser) (ts : List TokenTree) :
    printed p ts = (p ts).map fun r => (treesOf r.1, r.2) := rfl

def lifetime : Parser
  | .mark '\'' .joint s :: .word w :: rest => some ([.lifetime s w], rest)
  | _ => none

theorem printed_lifetime (ts : List TokenTree) : printed lifetime ts = readLifetime ts := by
  rw [printed_apply]
  fun_cases readLifetime ts with
  | case1 s w rest => rfl
  | case2 =>
    rw [lifetime]
    · rfl
    · assumption

/-- One parser after the other. -/
def andThen (p q : Parser) : Parser := fun ts =>
  (p ts).bind fun r => (q r.2).map fun r' => (r.1 ++ r'.1, r'.2)

theorem printed_andThen (p q : Parser) (ts : List TokenTree) :
    printed (andThen p q) ts =
      (printed p ts).bind fun r => (printed q r.2).map fun r' => (r.1 ++ r'.1, r'.2) := by
  simp only [printed, andThen, Option.map_bind, Option.bind_map, Option.map_map, Function.comp_def,
    treesOf_append]

/-- Parses as often as the test holds, at most so many times. -/
def loop (test : Ahead) (body : Parser) : Nat → Parser
  | 0, ts => some ([], ts)
  | n + 1, ts => if test ts then andThen body (loop test body n) ts else some ([], ts)

theorem printed_loop (test : Ahead) (body : Parser) (n : Nat) :
    printed (loop test body n) = Grammar.loop test (printed body) n := by
  induction n with
  | zero => rfl
  | succ n ih =>
    funext ts
    rw [loop_succ, ← ih, ← printed_andThen, printed_apply, printed_apply, loop]
    split <;> rfl

end Parser

namespace Grammar

open CommandBot.Parser

/-- Parses by a grammar whose rules are parsed by `call`. -/
def parse (call : Phrase → Parser) : Syntax → Parser
  | .nothing, ts => some ([], ts)
  | .fail, _ => none
  | .leaf accepts, ts => flat ((Grammar.leaf accepts).read fun name => printed (call name)) ts
  | .operator signs, ts => flat (readOperator signs) ts
  | .lifetime, ts => Parser.lifetime ts
  | .inside d content, ts =>
    match ts with
    | .group e inner s :: rest =>
      if d = e then
        match content.parse call inner with
        | some (trees, []) => some ([.group d trees s], rest)
        | _ => none
      else none
    | _ => none
  | .seq first second, ts => andThen (first.parse call) (second.parse call) ts
  | .ifAhead test yes no, ts => if test ts then yes.parse call ts else no.parse call ts
  | .whileAhead test body, ts => Parser.loop test (body.parse call) ts.length ts
  | .rule name, ts => call name ts
  | .writtenUnless test body, ts =>
    (body.parse call ts).map fun r =>
      (if test (treesOf r.1) then r.1 else (ts.take (ts.length - r.2.length)).map .token, r.2)
  | .unlessAlone body, ts =>
    (body.parse call ts).map fun r => (if (treesOf r.1).length = 1 then [] else r.1, r.2)
  | .parameters one, ts => flat (readGenerics (printed (one.parse call))) ts

theorem printed_inside {call : Phrase → Parser} {content : Syntax} {r : Reader}
    (h : printed (content.parse call) = r) (d : Delimiter) (inner : List TokenTree) (s : Span)
    (rest : List TokenTree) :
    printed ((Grammar.inside d content).parse call) (.group d inner s :: rest) =
      match r inner with
      | some (p, []) => some ([.group d p s], rest)
      | _ => none := by
  rw [← h, printed_apply, printed_apply, parse, if_pos rfl]
  rcases content.parse call inner with _ | ⟨trees, _ | ⟨t, rest'⟩⟩
  · rfl
  · simp only [Option.map_some, treesOf_singleton, SyntaxTree.trees]
  · rfl

/-- The trees of a grammar print as what it reads. -/
theorem printed_parse (call : Phrase → Parser) (g : Syntax) (ts : List TokenTree) :
    printed (g.parse call) ts = g.read (fun name => printed (call name)) ts := by
  induction g generalizing ts with
  | nothing => rfl
  | fail => rfl
  | leaf accepts => exact congrFun (printed_flat _) ts
  | operator signs => exact congrFun (printed_flat _) ts
  | lifetime => exact printed_lifetime ts
  | inside d content ih =>
    rw [read.eq_def]
    dsimp only
    split
    · rename_i e inner s rest
      split
      · rename_i hd
        subst hd
        exact printed_inside (funext ih) d inner s rest
      · rename_i hd
        rw [printed_apply, parse, if_neg hd]
        rfl
    · rename_i hgroup
      rw [printed_apply, parse]
      · rfl
      · exact hgroup
  | seq a b ha hb =>
    rw [read_seq_eq, ← ha, ← funext hb, ← printed_andThen]
    rfl
  | ifAhead test yes no hyes hno =>
    rw [printed_apply, parse, read, ← hyes, ← hno]
    split <;> rfl
  | whileAhead test body ih =>
    rw [read, ← funext ih, ← printed_loop]
    rfl
  | rule name => rfl
  | writtenUnless test body ih =>
    rw [read, ← ih, printed_apply, printed_apply, parse, Option.map_map, Option.map_map]
    refine congrArg (Option.map · _) (funext fun r => ?_)
    dsimp only [Function.comp_apply]
    split
    · rfl
    · rw [treesOf_map_token]
  | unlessAlone body ih =>
    rw [read, ← ih, printed_apply, printed_apply, parse, Option.map_map, Option.map_map]
    refine congrArg (Option.map · _) (funext fun r => ?_)
    dsimp only [Function.comp_apply]
    split
    · rw [treesOf_nil]
    · rfl
  | parameters one ih =>
    rw [read, ← funext ih]
    exact congrFun (printed_flat _) ts

/-- Parses by a rule of a system of rules, nested at most so deep. -/
def parseRule (rules : Phrase → Syntax) : Nat → Phrase → Parser
  | 0, _, _ => none
  | n + 1, name, ts =>
    ((rules name).parse (parseRule rules n) ts).map fun r => ([.phrase name r.1], r.2)

theorem printed_parseRule (rules : Phrase → Syntax) (n : Nat) (name : Phrase) :
    printed (parseRule rules n name) = readRule rules n name := by
  induction n generalizing name with
  | zero => rfl
  | succ n ih =>
    funext ts
    have hrule : printed (parseRule rules (n + 1) name) ts =
        printed ((rules name).parse (parseRule rules n)) ts := by
      rw [printed_apply, printed_apply, parseRule, Option.map_map]
      simp only [Function.comp_def, treesOf_singleton, SyntaxTree.trees]
    rw [hrule, printed_parse, readRule, funext ih]

/-- Parses from the front of a list by a grammar. -/
def parseBy (g : Syntax) : Parser := fun ts => g.parse (parseRule rules (depth ts)) ts

theorem printed_parseBy (g : Syntax) (ts : List TokenTree) :
    printed (parseBy g) ts = readBy g ts := by
  have hrules := funext (printed_parseRule rules (depth ts))
  rw [readBy, ← hrules, ← printed_parse, printed_apply, printed_apply, parseBy]

/-- What is read by a grammar has trees, which print as it does. -/
theorem exists_parseBy {g : Syntax} {ts p rest : List TokenTree}
    (h : readBy g ts = some (p, rest)) :
    ∃ content, parseBy g ts = some (content, rest) ∧ treesOf content = p := by
  rw [← printed_parseBy, printed_apply] at h
  obtain ⟨⟨content, rest'⟩, hparse, heq⟩ := Option.map_eq_some_iff.mp h
  cases heq
  exact ⟨content, hparse, rfl⟩

end Grammar

end CommandBot
