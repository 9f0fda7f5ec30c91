import CommandBot.Proofs.TokenEnd
import CommandBot.Proofs.Unplaced
import CommandBot.Token.Lexer

/-
  Tokens as a flat sequence. A `Piece` is a token without its place, or one bracket of a group;
  `piecesOf` takes the groups apart. The text of some tokens is the text of their pieces, with a
  space between two of them or none (`charsFrom_piecesOf`). Pieces are `Readable` when the lexer
  would read each of them where it stands: `Meets` says what may follow a mark that is joint.
-/

namespace CommandBot

open Text

/-- A token without its place, or one bracket of a group. -/
inductive Piece where
  | word (text : String)
  | mark (sign : Char) (spacing : Spacing)
  | literal (text : String)
  | opening (d : Delimiter)
  | closing (d : Delimiter)
deriving DecidableEq

namespace TokenTree

mutual

/-- The pieces of a token. -/
def pieces : TokenTree → List Piece
  | .word w => [.word w.text]
  | .mark c spacing _ => [.mark c spacing]
  | .literal text _ => [.literal text]
  | .group d content _ => .opening d :: (piecesOf content ++ [.closing d])

/-- The pieces of some tokens. -/
def piecesOf : List TokenTree → List Piece
  | [] => []
  | t :: rest => t.pieces ++ piecesOf rest

end

theorem pieces_word (w : Word) : (word w).pieces = [.word w.text] := by
  rw [pieces]

theorem pieces_mark (c : Char) (spacing : Spacing) (s : Span) :
    (mark c spacing s).pieces = [.mark c spacing] := by
  rw [pieces]

theorem pieces_literal (text : String) (s : Span) :
    (literal text s).pieces = [.literal text] := by
  rw [pieces]

theorem pieces_group (d : Delimiter) (content : List TokenTree) (s : Span) :
    (group d content s).pieces = .opening d :: (piecesOf content ++ [.closing d]) := by
  rw [pieces]

theorem piecesOf_nil : piecesOf [] = [] := by
  rw [piecesOf]

theorem piecesOf_cons (t : TokenTree) (rest : List TokenTree) :
    piecesOf (t :: rest) = t.pieces ++ piecesOf rest := by
  rw [piecesOf]

theorem piecesOf_append (s t : List TokenTree) :
    piecesOf (s ++ t) = piecesOf s ++ piecesOf t := by
  induction s with
  | nil => rw [piecesOf_nil, List.nil_append, List.nil_append]
  | cons a s ih => rw [List.cons_append, piecesOf_cons, piecesOf_cons, ih, List.append_assoc]

end TokenTree

namespace Piece

/-! ## Text -/

/-- The characters of a piece. -/
def chars : Piece → List Char
  | .word text => text.toList
  | .mark c _ => [c]
  | .literal text => text.toList
  | .opening .parenthesis => ['(']
  | .opening .bracket => ['[']
  | .opening .brace => ['{']
  | .closing .parenthesis => [')']
  | .closing .bracket => [']']
  | .closing .brace => ['}']

/-- Whether a space follows a piece, if no bracket closes there. -/
def isSpaced : Piece → Bool
  | .mark _ .joint => false
  | .opening d => d = .brace
  | _ => true

/-- The space before a piece, if there is one. -/
def gap (spaced : Bool) : Piece → List Char
  | .closing .brace => [' ']
  | .closing _ => []
  | _ => if spaced then [' '] else []

/-- The text of some pieces, perhaps behind one that a space follows. -/
def charsFrom (spaced : Bool) : List Piece → List Char
  | [] => []
  | p :: rest => p.gap spaced ++ p.chars ++ charsFrom p.isSpaced rest

theorem charsFrom_cons (spaced : Bool) (p : Piece) (rest : List Piece) :
    charsFrom spaced (p :: rest) = p.gap spaced ++ p.chars ++ charsFrom p.isSpaced rest := rfl

/-- Before a closing bracket it does not matter whether a space would follow. -/
theorem charsFrom_closing (b b' : Bool) (d : Delimiter) (rest : List Piece) :
    charsFrom b (.closing d :: rest) = charsFrom b' (.closing d :: rest) := by
  cases d <;> rfl

open TokenTree in
mutual

theorem charsFrom_pieces (b : Bool) (ps : List Piece) : ∀ t : TokenTree,
    charsFrom b (t.pieces ++ ps) =
      (if b then [' '] else []) ++ TokenTree.chars t ++ charsFrom (!isJoint t) ps
  | .word w => by rw [pieces_word, TokenTree.chars]; rfl
  | .mark c .alone s => by rw [pieces_mark, TokenTree.chars]; rfl
  | .mark c .joint s => by rw [pieces_mark, TokenTree.chars]; rfl
  | .literal text s => by rw [pieces_literal, TokenTree.chars]; rfl
  | .group d content s => by
    have hcontent := charsFrom_piecesOf (d = .brace) (.closing d :: ps)
      (fun b b' => charsFrom_closing b b' d ps) content
    rw [pieces_group, List.cons_append, List.append_assoc, List.singleton_append, charsFrom_cons]
    have hspaced : isSpaced (.opening d) = decide (d = .brace) := rfl
    rw [hspaced, hcontent]
    cases d with
    | parenthesis => rw [TokenTree.chars]; simp [gap, Piece.chars, charsFrom, isSpaced, isJoint]
    | bracket => rw [TokenTree.chars]; simp [gap, Piece.chars, charsFrom, isSpaced, isJoint]
    | brace =>
      rw [TokenTree.chars]
      cases content <;> simp [gap, Piece.chars, charsFrom, isSpaced, isJoint, charsOf_nil]

theorem charsFrom_piecesOf (b : Bool) (ps : List Piece)
    (hps : ∀ b b', charsFrom b ps = charsFrom b' ps) : ∀ ts : List TokenTree,
    charsFrom b (piecesOf ts ++ ps) =
      (if ts.isEmpty || !b then [] else [' ']) ++ charsOf ts ++ charsFrom true ps
  | [] => by
    rw [piecesOf_nil, charsOf_nil, List.nil_append, hps b true]
    rfl
  | t :: rest => by
    rw [piecesOf_cons, List.append_assoc, charsFrom_pieces b (piecesOf rest ++ ps) t,
      charsFrom_piecesOf (!isJoint t) ps hps rest, charsOf]
    cases b <;> simp

end

/-! ## Readable sequences -/

/-- Whether some characters are an identifier. -/
def isIdentifier : List Char → Bool
  | [] => false
  | c :: rest => isIdentifierStart c && rest.all isIdentifierPart

/-- Whether some characters are a word, marked raw or not. -/
def isWord : List Char → Bool
  | 'r' :: '#' :: rest => isIdentifier rest && !Lexer.isNeverRaw rest
  | cs => isIdentifier cs

/-- Whether the characters of a literal begin with letters and a double quote. -/
def beginsAsWord : List Char → Bool
  | 'r' :: '"' :: _ | 'b' :: '"' :: _ | 'c' :: '"' :: _ => true
  | 'b' :: 'r' :: '"' :: _ | 'c' :: 'r' :: '"' :: _ => true
  | _ => false

/-- What the lexer would read as one piece, if it reads it. -/
def IsSound : Piece → Prop
  | .word text => isWord text.toList = true
  | .mark c _ => Lexer.isMarkSign c = true
  | .literal text => Literal.Takes Literal.scan text.toList
  | _ => True

/-- What may follow a piece, or the end: an apostrophe is joint to a word, every other mark that is
joint to another mark, or to the quote of a character, and no two marks open a comment. -/
inductive Meets : Piece → Option Piece → Prop where
  | word (text : String) (q : Option Piece) : Meets (.word text) q
  | literal (text : String) (q : Option Piece) : Meets (.literal text) q
  | opening (d : Delimiter) (q : Option Piece) : Meets (.opening d) q
  | closing (d : Delimiter) (q : Option Piece) : Meets (.closing d) q
  | alone {c : Char} (hc : c ≠ '\'') (q : Option Piece) : Meets (.mark c .alone) q
  | sign {c d : Char} {spacing : Spacing} (hc : c ≠ '\'')
      (hcomment : c = '/' → d ≠ '/' ∧ d ≠ '*') : Meets (.mark c .joint) (some (.mark d spacing))
  | character {c : Char} {text : String} (hc : c ≠ '\'') (ht : text.toList.head? = some '\'') :
      Meets (.mark c .joint) (some (.literal text))
  | lifetime (text : String) : Meets (.mark '\'' .joint) (some (.word text))
  | quoted {text : String} (ht : beginsAsWord text.toList = true) :
      Meets (.mark '\'' .joint) (some (.literal text))

/-- Every piece is sound and meets the next one. -/
def Readable : List Piece → Prop
  | [] => True
  | p :: rest => p.IsSound ∧ p.Meets rest.head? ∧ Readable rest

/-- A piece that may stand at the end may stand before every other one. -/
theorem Meets.of_none {p : Piece} (h : p.Meets none) (q : Option Piece) : p.Meets q := by
  cases h with
  | word text => exact .word text q
  | literal text => exact .literal text q
  | opening d => exact .opening d q
  | closing d => exact .closing d q
  | alone hc => exact .alone hc q

theorem Readable.append {ps qs : List Piece} (hp : Readable ps) (hq : Readable qs) :
    Readable (ps ++ qs) := by
  induction ps with
  | nil => exact hq
  | cons p ps ih =>
    obtain ⟨hsound, hmeets, hrest⟩ := hp
    refine ⟨hsound, ?_, ih hrest⟩
    cases ps with
    | nil => exact hmeets.of_none _
    | cons q ps => exact hmeets

theorem Readable.right {ps qs : List Piece} (h : Readable (ps ++ qs)) : Readable qs := by
  induction ps with
  | nil => exact h
  | cons p ps ih => exact ih h.2.2

end Piece

/-- Tokens that a lexer would read as they print. -/
abbrev TokenTree.Legible (ts : List TokenTree) : Prop := Piece.Readable (TokenTree.piecesOf ts)

end CommandBot
