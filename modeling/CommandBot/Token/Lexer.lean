import CommandBot.Text.Blank
import CommandBot.Token.Basic
import CommandBot.Token.Literal

/-
  From characters to tokens. `lexemes` cuts a text into leaves and brackets; `nest` pairs the
  brackets. A mark is joint when another mark follows it at once; a documentation comment stands
  for the attribute that holds its text.
-/

namespace CommandBot.Lexer

open CommandBot.Text

/-- A leaf, or one bracket of a group. -/
inductive Lexeme where
  | leaf (t : TokenTree)
  | opening (d : Delimiter) (at_ : Position)
  | closing (d : Delimiter) (past : Position)

/-! ## Comments -/

/-- The characters after a block comment, of which so many are open. -/
def blockEnd : Nat → List Char → Option (List Char)
  | depth, '/' :: '*' :: rest => blockEnd (depth + 1) rest
  | depth, '*' :: '/' :: rest =>
    match depth with
    | 0 => none
    | 1 => some rest
    | d + 2 => blockEnd (d + 1) rest
  | depth, _ :: rest => blockEnd depth rest
  | _, [] => none

/-- A line's text, and what follows it; a carriage return is dropped with the line's end. -/
def line : List Char → List Char × List Char
  | [] => ([], [])
  | '\n' :: rest => ([], '\n' :: rest)
  | '\r' :: '\n' :: rest => ([], '\n' :: rest)
  | c :: rest => (c :: (line rest).1, (line rest).2)

/-- Whether every carriage return ends a line. -/
def returnsEndLines : List Char → Bool
  | [] => true
  | '\r' :: '\n' :: rest => returnsEndLines rest
  | c :: rest => c != '\r' && returnsEndLines rest

/-- The text between the three characters that open a block comment and the two that close it. -/
def blockText (cs rest : List Char) : List Char :=
  (cs.drop 3).take (cs.length - rest.length - 5)

/-- A documentation comment: whether it is about what encloses it, its text, and what follows. -/
def documentation (cs : List Char) : Option (Bool × List Char × List Char) :=
  let outcome :=
    match cs with
    | '/' :: '/' :: '!' :: rest => some (true, line rest)
    | '/' :: '*' :: '!' :: _ => (blockEnd 0 cs).map fun rest => (true, blockText cs rest, rest)
    | '/' :: '/' :: '/' :: rest => if rest.head? = some '/' then none else some (false, line rest)
    | '/' :: '*' :: '*' :: rest =>
      if rest.head? = some '*' then none
      else (blockEnd 0 cs).map fun r => (false, blockText cs r, r)
    | _ => none
  outcome.filter fun o => returnsEndLines o.2.1

/-- The attribute that a documentation comment stands for. -/
def documentationTrees (inner : Bool) (text : List Char) (s : Span) : List TokenTree :=
  .mark '#' .alone s :: (if inner then [.mark '!' .alone s] else []) ++
    [.group .bracket
      [.word ⟨"doc", s⟩, .mark '=' .alone s, .literal (literal (String.ofList text)) s] s]

/-- One step over what separates tokens; nothing where a token or a documentation comment is. -/
def separator : List Char → Option (List Char)
  | '/' :: '/' :: rest =>
    match rest with
    | '!' :: _ => none
    | '/' :: more => if more.head? = some '/' then some (line rest).2 else none
    | _ => some (line rest).2
  | '/' :: '*' :: rest =>
    match rest with
    | '*' :: '/' :: more => some more
    | '!' :: _ => none
    | '*' :: more =>
      if more.head? = some '*' then blockEnd 0 ('/' :: '*' :: rest) else none
    | _ => blockEnd 0 ('/' :: '*' :: rest)
  | c :: rest => if isSeparator c then some rest else none
  | [] => none

/-- The text behind the separators at its front, of which there are at most so many. -/
def skipSeparators : Nat → List Char → List Char
  | 0, cs => cs
  | n + 1, cs =>
    match separator cs with
    | some rest => skipSeparators n rest
    | none => cs

/-! ## Leaves -/

def isMarkSign (c : Char) : Bool := "~!@#$%^&*-=+|;:,<.>/?'".toList.contains c

/-- Whether a mark begins here; a comment is none. -/
def isMark : List Char → Bool
  | '/' :: '/' :: _ => false
  | '/' :: '*' :: _ => false
  | c :: _ => isMarkSign c
  | [] => false

/-- Whether characters that open a quoted literal stand where a word might begin. -/
def isQuoteOpening : List Char → Bool
  | 'r' :: '"' :: _ | 'r' :: '#' :: '"' :: _ | 'r' :: '#' :: '#' :: _ => true
  | 'b' :: '"' :: _ | 'b' :: '\'' :: _ | 'b' :: 'r' :: '"' :: _ | 'b' :: 'r' :: '#' :: _ => true
  | 'c' :: '"' :: _ | 'c' :: 'r' :: '"' :: _ | 'c' :: 'r' :: '#' :: _ => true
  | _ => false

/-- Words that have no raw form. -/
def isNeverRaw (text : List Char) : Bool :=
  [['_'], "super".toList, "self".toList, "Self".toList, "crate".toList].contains text

/-- The characters after a word, raw or not. -/
def anyWord : List Char → Option (List Char)
  | 'r' :: '#' :: rest =>
    (Literal.identifier rest).filter fun after =>
      !isNeverRaw (rest.take (rest.length - after.length))
  | cs => Literal.identifier cs

/-- The characters after a word that is not the beginning of a quoted literal. -/
def word (cs : List Char) : Option (List Char) :=
  if isQuoteOpening cs then none else anyWord cs

/-- The spacing of the mark that begins here, if one does. An apostrophe is the mark of a
lifetime: a word follows it at once, and no second apostrophe. -/
def mark : List Char → Option Spacing
  | '\'' :: rest =>
    match anyWord rest with
    | none => none
    | some after =>
      if after.head? = some '\'' ∨ (after.head? = some '#' ∧ rest.take 2 ≠ ['r', '#']) then none
      else some .joint
  | c :: rest => if isMark (c :: rest) then some (if isMark rest then .joint else .alone) else none
  | [] => none

/-! ## The text as a whole -/

def opened : Char → Option Delimiter
  | '(' => some .parenthesis
  | '[' => some .bracket
  | '{' => some .brace
  | _ => none

def closed : Char → Option Delimiter
  | ')' => some .parenthesis
  | ']' => some .bracket
  | '}' => some .brace
  | _ => none

/-- The lexemes that begin a text, and what follows them. -/
def next (p : Position) (cs : List Char) : Option (List Lexeme × List Char) :=
  match separator cs with
  | some rest => some ([], rest)
  | none =>
    let upTo := fun (rest : List Char) => cs.take (cs.length - rest.length)
    let spanTo := fun (rest : List Char) => Span.written p (p.advance (upTo rest))
    match documentation cs with
    | some (inner, text, rest) =>
      some ((documentationTrees inner text (spanTo rest)).map .leaf, rest)
    | none =>
      match Literal.scan cs with
      | some rest => some ([.leaf (.literal (String.ofList (upTo rest)) (spanTo rest))], rest)
      | none =>
        match cs with
        | [] => none
        | c :: rest =>
          match opened c, closed c, mark cs, word cs with
          | some d, _, _, _ => some ([.opening d p], rest)
          | _, some d, _, _ => some ([.closing d (p.step c)], rest)
          | _, _, some s, _ => some ([.leaf (.mark c s (spanTo rest))], rest)
          | _, _, _, some after =>
            some ([.leaf (.word ⟨String.ofList (upTo after), spanTo after⟩)], after)
          | _, _, _, _ => none

/-- The lexemes of a text; each step leaves fewer characters, so the text's length bounds them. -/
def lexemesFrom : Nat → Position → List Char → Option (List Lexeme)
  | _, _, [] => some []
  | 0, _, _ => none
  | n + 1, p, cs =>
    match next p cs with
    | none => none
    | some (found, rest) =>
      (lexemesFrom n (p.advance (cs.take (cs.length - rest.length))) rest).map (found ++ ·)

def lexemes (cs : List Char) : Option (List Lexeme) :=
  match cs with
  | '\uFEFF' :: rest => lexemesFrom rest.length (Position.start.step '\uFEFF') rest
  | _ => lexemesFrom cs.length .start cs

/-- The groups that are open: the brackets, their places, and the tokens before each. -/
abbrev Open := List (Delimiter × Position × List TokenTree)

/-- Pairs the brackets; `before` holds the tokens of the innermost group, the last one first. -/
def nest : Open → List TokenTree → List Lexeme → Option (List TokenTree)
  | [], before, [] => some before.reverse
  | _ :: _, _, [] => none
  | stack, before, .leaf t :: rest => nest stack (t :: before) rest
  | stack, before, .opening d p :: rest => nest ((d, p, before) :: stack) [] rest
  | (d, p, outside) :: stack, before, .closing e past :: rest =>
    if d = e then nest stack (.group d before.reverse (.written p past) :: outside) rest else none
  | [], _, .closing _ _ :: _ => none

/-- The tokens of a text, if its literals end and its brackets pair. -/
def tokens (cs : List Char) : Option (List TokenTree) :=
  (lexemes cs).bind (nest [] [])

end CommandBot.Lexer

namespace CommandBot.TokenTree

/-- The tokens of a text. -/
def read? (s : String) : Option (List TokenTree) := Lexer.tokens s.toList

end CommandBot.TokenTree
