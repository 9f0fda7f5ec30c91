/-
  Tokens of a source text: words, marks, literals, and groups in one of three kinds of brackets.
  Each knows where in the text it was written, or that the generator made it.
-/

namespace CommandBot

/-- A place in a text. Lines count from one, columns from zero, both in characters. -/
structure Position where
  line : Nat
  column : Nat
deriving DecidableEq, Repr

namespace Position

/-- The place before the first character. -/
def start : Position := ⟨1, 0⟩

/-- The place after one more character. -/
def step (p : Position) (c : Char) : Position :=
  if c = '\n' then ⟨p.line + 1, 0⟩ else ⟨p.line, p.column + 1⟩

/-- The place after some more characters. -/
def advance (p : Position) (cs : List Char) : Position := cs.foldl step p

def before (p q : Position) : Bool :=
  p.line < q.line || (p.line == q.line && p.column ≤ q.column)

def min (p q : Position) : Position := if p.before q then p else q

def max (p q : Position) : Position := if p.before q then q else p

theorem advance_nil (p : Position) : p.advance [] = p := rfl

theorem advance_append (p : Position) (s t : List Char) :
    p.advance (s ++ t) = (p.advance s).advance t := by
  simp [advance]

end Position

/-- Where a token stands: written in a source text, or made by the generator. -/
inductive Span where
  | generated
  | written (first past : Position)
deriving DecidableEq, Repr

namespace Span

/-- The stretch from one span to another; what was generated does not stretch. -/
def join : Span → Span → Span
  | .written a b, .written c d => .written (a.min c) (b.max d)
  | s, _ => s

/-- The last character of a span. -/
def last : Span → Span
  | .generated => .generated
  | .written a b => .written (if b.column = 0 then a else ⟨b.line, b.column - 1⟩) b

/-- The first character of a span. -/
def first : Span → Span
  | .generated => .generated
  | .written a _ => .written a ⟨a.line, a.column + 1⟩

theorem join_self_generated (s : Span) : join .generated s = .generated := rfl

theorem join_generated (s : Span) : join s .generated = s := by cases s <;> rfl

end Span

/-- The brackets of a group. -/
inductive Delimiter where
  | parenthesis
  | bracket
  | brace
deriving DecidableEq, Repr

/-- Whether a mark is read together with the character that follows it. -/
inductive Spacing where
  | alone
  | joint
deriving DecidableEq, Repr

/-- A word as written: a name, a keyword, or a name marked raw by `r#`. -/
structure Word where
  text : String
  span : Span
deriving DecidableEq, Repr

namespace Word

/-- A word that the generator writes. -/
def made (text : String) : Word := ⟨text, .generated⟩

/-- The word without its raw mark. -/
def bare (w : Word) : String :=
  match w.text.toList with
  | 'r' :: '#' :: rest => String.ofList rest
  | _ => w.text

end Word

/-- A token, or a group of them with its brackets. -/
inductive TokenTree where
  | word (w : Word)
  | mark (sign : Char) (spacing : Spacing) (span : Span)
  | literal (text : String) (span : Span)
  | group (delimiter : Delimiter) (content : List TokenTree) (span : Span)
deriving Repr

namespace TokenTree

def span : TokenTree → Span
  | .word w => w.span
  | .mark _ _ s => s
  | .literal _ s => s
  | .group _ _ s => s

/-- Where an error about a token points: at a group, to its opening bracket. -/
def headSpan : TokenTree → Span
  | .group _ _ s => s.first
  | t => t.span

/-- The stretch that some tokens cover, from the first to the last. -/
def spanOf : List TokenTree → Span
  | [] => .generated
  | t :: rest => ((t :: rest).getLast?.map fun u => t.span.join u.span).getD t.span

mutual

/-- The number of tokens in a token, each pair of brackets counted once. -/
def weight : TokenTree → Nat
  | .group _ content _ => weightOf content + 1
  | _ => 1

/-- The number of tokens in a list. -/
def weightOf : List TokenTree → Nat
  | [] => 0
  | t :: rest => weight t + weightOf rest

end

/-- An operator of the given signs, read as one unit. -/
def operator : List Char → List TokenTree
  | [] => []
  | [c] => [.mark c .alone .generated]
  | c :: rest => .mark c .joint .generated :: operator rest

/-- A word that the generator writes. -/
def made (text : String) : TokenTree := .word (.made text)

/-- A group that the generator writes. -/
def grouped (d : Delimiter) (content : List TokenTree) : TokenTree := .group d content .generated

theorem spanOf_nil : spanOf [] = .generated := rfl

theorem weight_pos (t : TokenTree) : 0 < t.weight := by
  cases t <;> simp [weight]

theorem weightOf_append (s t : List TokenTree) : weightOf (s ++ t) = weightOf s + weightOf t := by
  induction s with
  | nil => simp [weightOf]
  | cons a s ih => simp [weightOf, ih, Nat.add_assoc]

end TokenTree

end CommandBot
