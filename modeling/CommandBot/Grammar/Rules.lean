import CommandBot.Grammar.Item

/-
  The rules of all phrases, and `readBy`, which reads a list of tokens by a grammar over them. A
  rule is never nested deeper than eight times the number of tokens, since on any way from a rule
  back to itself a token is read.
-/

namespace CommandBot.Grammar

/-- The rule of each phrase. -/
def rules : Phrase → Syntax
  | .type plus => typeRule plus
  | .path => path
  | .arguments => arguments
  | .bound => bound
  | .whereClause => whereRule
  | .expressionPath => expressionPathRule
  | .expression braces => expressionRule braces
  | .blockLike => blockLikeRule
  | .operand braces => operandRule braces
  | .pattern => patternRule
  | .alternative => alternativeRule
  | .statement => statementRule
  | .item => itemRule
  | .member => memberRule
  | .useTree => useRule

/-- How deep rules may be nested in a list of tokens. -/
def depth (ts : List TokenTree) : Nat := 8 * (TokenTree.weightOf ts + 1)

/-- Reads from the front of a list by a grammar. -/
def readBy (g : Syntax) : Reader := fun ts => g.read (readRule rules (depth ts)) ts

/-- What a whole list prints as when a grammar reads all of it. -/
def readAll? (g : Syntax) (ts : List TokenTree) : Option (List TokenTree) :=
  match readBy g ts with
  | some (printed, []) => some printed
  | _ => none

end CommandBot.Grammar
