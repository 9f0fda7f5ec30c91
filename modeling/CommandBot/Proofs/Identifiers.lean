import CommandBot.Bot.Declaration
import CommandBot.Proofs.Pieces

/-
  Names made from names. Whatever may begin an identifier may also continue one
  (`isIdentifierPart_of_isIdentifierStart`, by one walk along both tables), so that the name of a
  dispatcher is a word if its bot's name is.
-/

namespace CommandBot

namespace Text

/-- Whether the set with the first boundaries lies in the one with the second, in so many steps; of
each set the complement is meant where its flag is set. -/
def isIncluded : Nat → Bool → Bool → List Nat → List Nat → Bool
  | 0, _, _, _, _ => false
  | _ + 1, s, t, [], [] => !s || t
  | n + 1, s, t, _ :: as, [] => (!s || t) && isIncluded n (!s) t as []
  | n + 1, s, t, [], _ :: bs => (!s || t) && isIncluded n s (!t) [] bs
  | n + 1, s, t, a :: as, b :: bs =>
    (!s || t) &&
      if a < b then isIncluded n (!s) t as (b :: bs)
      else if b < a then isIncluded n s (!t) (a :: as) bs
      else isIncluded n (!s) (!t) as bs

/-- Membership past a boundary, of the set or its complement. -/
theorem xor_within_cons {b m : Nat} (h : b ≤ m) (t : Bool) (bs : List Nat) :
    (t ^^ within (b :: bs) m) = (!t ^^ within bs m) := by
  rw [within_cons_of_le h]
  cases t <;> cases within bs m <;> rfl

theorem xor_within_of_lt {b m : Nat} (h : m < b) (t : Bool) (bs : List Nat) :
    (t ^^ within (b :: bs) m) = t := by
  rw [within_cons_of_lt h, Bool.xor_false]

theorem within_of_isIncluded {n : Nat} {s t : Bool} {as bs : List Nat}
    (h : isIncluded n s t as bs = true) (m : Nat) (hm : (s ^^ within as m) = true) :
    (t ^^ within bs m) = true := by
  have here : ∀ {s t : Bool}, (!s || t) = true → s = true → t = true := by decide
  fun_induction isIncluded n s t as bs with
  | case1 => cases h
  | case2 n s t =>
    rw [within_nil, Bool.xor_false] at hm ⊢
    exact here h hm
  | case3 n s t a as ih =>
    rw [Bool.and_eq_true] at h
    by_cases ha : m < a
    · rw [xor_within_of_lt ha] at hm
      rw [within_nil, Bool.xor_false]
      exact here h.1 hm
    · rw [xor_within_cons (Nat.le_of_not_lt ha)] at hm
      exact ih h.2 hm
  | case4 n s t b bs ih =>
    rw [Bool.and_eq_true] at h
    by_cases hb : m < b
    · rw [within_nil, Bool.xor_false] at hm
      rw [xor_within_of_lt hb]
      exact here h.1 hm
    · rw [xor_within_cons (Nat.le_of_not_lt hb)]
      exact ih h.2 hm
  | case5 n s t a as b bs ihLess ihMore ihSame =>
    rw [Bool.and_eq_true] at h
    obtain ⟨hst, h⟩ := h
    rcases Nat.lt_trichotomy a b with hab | rfl | hba
    · rw [if_pos hab] at h
      by_cases ha : m < a
      · rw [xor_within_of_lt ha] at hm
        rw [xor_within_of_lt (Nat.lt_trans ha hab)]
        exact here hst hm
      · rw [xor_within_cons (Nat.le_of_not_lt ha)] at hm
        exact ihLess h hm
    · rw [if_neg (Nat.lt_irrefl a), if_neg (Nat.lt_irrefl a)] at h
      by_cases ha : m < a
      · rw [xor_within_of_lt ha] at hm ⊢
        exact here hst hm
      · rw [xor_within_cons (Nat.le_of_not_lt ha)] at hm ⊢
        exact ihSame h hm
    · rw [if_neg (Nat.lt_asymm hba), if_pos hba] at h
      by_cases hb : m < b
      · rw [xor_within_of_lt (Nat.lt_trans hb hba)] at hm
        rw [xor_within_of_lt hb]
        exact here hst hm
      · rw [xor_within_cons (Nat.le_of_not_lt hb)]
        exact ihMore h hm

theorem isIdentifierPart_of_isIdentifierStart {c : Char} (h : isIdentifierStart c = true) :
    isIdentifierPart c = true := by
  unfold isIdentifierStart at h
  unfold isIdentifierPart
  split at h
  · rename_i hascii
    rw [if_pos hascii]
    rw [Bool.or_eq_true] at h ⊢
    exact h.imp_left fun h => by rw [Char.isAlphanum, h, Bool.true_or]
  · rename_i hascii
    rw [if_neg hascii]
    have htables : isIncluded 4000 false false identifierStarts identifierParts = true := by
      decide +kernel
    rw [← Bool.false_xor (within _ _)] at h ⊢
    exact within_of_isIncluded htables c.toNat h

end Text

open Text

namespace Piece

theorem isIdentifier_append {s t : List Char} (hs : isIdentifier s = true)
    (ht : isIdentifier t = true) : isIdentifier (s ++ t) = true := by
  cases s with
  | nil => cases hs
  | cons c s =>
    cases t with
    | nil => cases ht
    | cons d t =>
      rw [isIdentifier, Bool.and_eq_true] at hs ht
      rw [List.cons_append, isIdentifier, List.all_append, List.all_cons,
        isIdentifierPart_of_isIdentifierStart ht.1, hs.1, hs.2, ht.2]
      rfl

/-- A word without its raw mark is an identifier. -/
theorem isIdentifier_bare {w : Word} (h : isWord w.text.toList = true) :
    isIdentifier w.bare.toList = true := by
  unfold Word.bare
  split
  · rename_i rest heq
    rw [heq] at h
    have h : (isIdentifier rest && !Lexer.isNeverRaw rest) = true := h
    rw [Bool.and_eq_true] at h
    rw [String.toList_ofList]
    exact h.1
  · rename_i hraw
    unfold isWord at h
    split at h
    · rename_i rest heq
      exact absurd heq (hraw rest)
    · exact h

theorem isWord_of_isIdentifier {cs : List Char} (h : isIdentifier cs = true)
    (hraw : cs.head? ≠ some 'r') : isWord cs = true := by
  unfold isWord
  split
  · exact absurd rfl hraw
  · exact h

end Piece

/-- The name of a dispatcher is a word, since its bot's name is one. -/
theorem Declaration.isSound_unitName {d : Declaration} (h : (Piece.word d.name.text).IsSound) :
    (Piece.word d.unitName).IsSound := by
  show Piece.isWord ("Magicord" ++ d.name.bare).toList = true
  rw [String.toList_append]
  refine Piece.isWord_of_isIdentifier (Piece.isIdentifier_append (by decide)
    (Piece.isIdentifier_bare h)) ?_
  show some 'M' ≠ some 'r'
  decide

end CommandBot
