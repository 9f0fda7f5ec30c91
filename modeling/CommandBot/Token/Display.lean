import CommandBot.Token.Basic

/-
  The text of a list of tokens: one space between two tokens, none after a mark that is joint to
  what follows, and inner spaces only in braces.
-/

namespace CommandBot.TokenTree

/-- Whether the next token follows without a space. -/
def isJoint : TokenTree → Bool
  | .mark _ .joint _ => true
  | _ => false

mutual

/-- The characters of one token. -/
def chars : TokenTree → List Char
  | .word w => w.text.toList
  | .mark c _ _ => [c]
  | .literal text _ => text.toList
  | .group .parenthesis content _ => '(' :: charsOf content ++ [')']
  | .group .bracket content _ => '[' :: charsOf content ++ [']']
  | .group .brace content _ =>
    '{' :: ' ' :: charsOf content ++ (if content.isEmpty then ['}'] else [' ', '}'])

/-- The characters of some tokens, spaced. -/
def charsOf : List TokenTree → List Char
  | [] => []
  | t :: rest =>
    chars t ++ (if rest.isEmpty || isJoint t then [] else [' ']) ++ charsOf rest

end

/-- The text of some tokens. -/
def display (ts : List TokenTree) : String := String.ofList (charsOf ts)

theorem charsOf_nil : charsOf [] = [] := by simp [charsOf]

theorem charsOf_singleton (t : TokenTree) : charsOf [t] = chars t := by simp [charsOf]

theorem charsOf_cons_cons (t u : TokenTree) (rest : List TokenTree) :
    charsOf (t :: u :: rest) = chars t ++ (if isJoint t then [] else [' ']) ++ charsOf (u :: rest) := by
  simp [charsOf]

end CommandBot.TokenTree
