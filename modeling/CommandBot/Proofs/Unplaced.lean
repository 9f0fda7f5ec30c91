import CommandBot.Token.Display

/-
  Tokens without their places. `unplacedAll` makes every token one of the generator's, so that two
  lists have the same image exactly when they agree up to the places of their tokens; what prints of
  a list does not depend on places (`charsOf_unplacedAll`).
-/

namespace CommandBot.TokenTree

mutual

/-- A token, as if the generator had made it. -/
def unplaced : TokenTree → TokenTree
  | .word w => .word (.made w.text)
  | .mark c spacing _ => .mark c spacing .generated
  | .literal text _ => .literal text .generated
  | .group d content _ => .group d (unplacedAll content) .generated

/-- Some tokens, as if the generator had made them. -/
def unplacedAll : List TokenTree → List TokenTree
  | [] => []
  | t :: rest => t.unplaced :: unplacedAll rest

end

theorem unplaced_word (w : Word) : (word w).unplaced = .word (.made w.text) := by
  rw [unplaced]

theorem unplaced_mark (c : Char) (spacing : Spacing) (s : Span) :
    (mark c spacing s).unplaced = .mark c spacing .generated := by
  rw [unplaced]

theorem unplaced_literal (text : String) (s : Span) :
    (literal text s).unplaced = .literal text .generated := by
  rw [unplaced]

theorem unplaced_group (d : Delimiter) (content : List TokenTree) (s : Span) :
    (group d content s).unplaced = .group d (unplacedAll content) .generated := by
  rw [unplaced]

theorem unplacedAll_nil : unplacedAll [] = [] := by
  rw [unplacedAll]

theorem unplacedAll_cons (t : TokenTree) (rest : List TokenTree) :
    unplacedAll (t :: rest) = t.unplaced :: unplacedAll rest := by
  rw [unplacedAll]

theorem unplacedAll_eq_map (ts : List TokenTree) : unplacedAll ts = ts.map unplaced := by
  induction ts with
  | nil => exact unplacedAll_nil
  | cons t rest ih => rw [unplacedAll_cons, ih, List.map_cons]

theorem unplacedAll_append (s t : List TokenTree) :
    unplacedAll (s ++ t) = unplacedAll s ++ unplacedAll t := by
  simp only [unplacedAll_eq_map, List.map_append]

theorem length_unplacedAll (ts : List TokenTree) : (unplacedAll ts).length = ts.length := by
  rw [unplacedAll_eq_map, List.length_map]

theorem isEmpty_unplacedAll (ts : List TokenTree) : (unplacedAll ts).isEmpty = ts.isEmpty := by
  rw [unplacedAll_eq_map, List.isEmpty_map]

theorem exists_of_unplacedAll_eq_cons {ts rest : List TokenTree} {t : TokenTree}
    (h : unplacedAll ts = t :: rest) :
    ∃ t' rest', ts = t' :: rest' ∧ t'.unplaced = t ∧ unplacedAll rest' = rest := by
  cases ts with
  | nil => simp [unplacedAll_nil] at h
  | cons t' rest' =>
    rw [unplacedAll_cons, List.cons.injEq] at h
    exact ⟨t', rest', rfl, h.1, h.2⟩

theorem exists_of_unplaced_eq_word {t : TokenTree} {w : Word} (h : t.unplaced = .word w) :
    ∃ v, t = .word v := by
  cases t <;> simp_all [unplaced]

theorem exists_of_unplaced_eq_mark {t : TokenTree} {c : Char} {spacing : Spacing} {s : Span}
    (h : t.unplaced = .mark c spacing s) : ∃ s', t = .mark c spacing s' := by
  cases t <;> simp_all [unplaced]

theorem exists_of_unplaced_eq_literal {t : TokenTree} {text : String} {s : Span}
    (h : t.unplaced = .literal text s) : ∃ s', t = .literal text s' := by
  cases t <;> simp_all [unplaced]

/-- A generated token has no place to lose. -/
theorem headSpan_unplaced (t : TokenTree) : t.unplaced.headSpan = .generated := by
  cases t with
  | word w => rw [unplaced_word]; rfl
  | mark c spacing s => rw [unplaced_mark]; rfl
  | literal text s => rw [unplaced_literal]; rfl
  | group d content s => rw [unplaced_group]; rfl

theorem isJoint_unplaced (t : TokenTree) : isJoint t.unplaced = isJoint t := by
  cases t with
  | word w => rw [unplaced_word]; rfl
  | mark c spacing s => rw [unplaced_mark]; cases spacing <;> rfl
  | literal text s => rw [unplaced_literal]; rfl
  | group d content s => rw [unplaced_group]; rfl

mutual

theorem chars_unplaced : ∀ t : TokenTree, chars t.unplaced = chars t
  | .word w => by simp [unplaced, chars, Word.made]
  | .mark c spacing s => by simp [unplaced, chars]
  | .literal text s => by simp [unplaced, chars]
  | .group d content s => by
    cases d <;> simp [unplaced, chars, charsOf_unplacedAll content, isEmpty_unplacedAll]

/-- What prints of some tokens does not depend on their places. -/
theorem charsOf_unplacedAll : ∀ ts : List TokenTree, charsOf (unplacedAll ts) = charsOf ts
  | [] => by rw [unplacedAll_nil]
  | t :: rest => by
    rw [unplacedAll_cons, charsOf, charsOf, chars_unplaced t, charsOf_unplacedAll rest,
      isEmpty_unplacedAll, isJoint_unplaced]

end

mutual

theorem unplaced_unplaced : ∀ t : TokenTree, t.unplaced.unplaced = t.unplaced
  | .word w => by rw [unplaced_word, unplaced_word]; rfl
  | .mark c spacing s => by rw [unplaced_mark, unplaced_mark]
  | .literal text s => by rw [unplaced_literal, unplaced_literal]
  | .group d content s => by
    rw [unplaced_group, unplaced_group, unplacedAll_unplacedAll content]

theorem unplacedAll_unplacedAll : ∀ ts : List TokenTree,
    unplacedAll (unplacedAll ts) = unplacedAll ts
  | [] => by rw [unplacedAll_nil, unplacedAll_nil]
  | t :: rest => by
    rw [unplacedAll_cons, unplacedAll_cons, unplaced_unplaced t, unplacedAll_unplacedAll rest]

end

end CommandBot.TokenTree
