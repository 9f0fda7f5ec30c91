import CommandBot.Source.ImplBlock

/-
  Parts taken from the front of some tokens: what each step of a `Take` does, and that a repetition
  of parts which all take something needs no more rounds than there are tokens
  (`manyUpTo_eq_manyUpTo`), so that one more part in front is one more part taken (`many_cons`).
-/

namespace CommandBot

namespace Take

open Grammar

variable {α β : Type}

theorem bind_apply (part : Take α) (next : α → Take β) (ts : List TokenTree) :
    (part >>= next) ts = (part ts).bind fun r => next r.1 r.2 := rfl

theorem piece_apply (g : Syntax) (ts : List TokenTree) : piece g ts = readBy g ts := rfl

theorem ahead_apply (test : Ahead) (ts : List TokenTree) : ahead test ts = some (test ts, ts) := rfl

theorem within_eq_some_iff (d : Delimiter) (part : Take α) (ts rest : List TokenTree) (a : α)
    (s : Span) :
    within d part ts = some ((a, s), rest) ↔
      ∃ content, ts = .group d content s :: rest ∧ part content = some (a, []) := by
  fun_cases within d part ts <;> grind

theorem length_lt_of_within {d : Delimiter} {part : Take α} {ts rest : List TokenTree} {r : α × Span}
    (h : within d part ts = some (r, rest)) : rest.length < ts.length := by
  obtain ⟨content, rfl, -⟩ := (within_eq_some_iff d part ts rest r.1 r.2).1 h
  simp

/-! ## Repetition -/

theorem manyUpTo_succ (test : Ahead) (part : Take α) (n : Nat) (ts : List TokenTree) :
    manyUpTo test part (n + 1) ts =
      if test ts then
        (part ts).bind fun r => (manyUpTo test part n r.2).map fun q => (r.1 :: q.1, q.2)
      else some ([], ts) := by
  rw [manyUpTo, bind_apply, ahead_apply, Option.bind_some]
  dsimp only
  split
  · rw [bind_apply]
    congr 1
    funext r
    rw [bind_apply]
    cases manyUpTo test part n r.2 <;> rfl
  · rfl

theorem manyUpTo_of_not {test : Ahead} {part : Take α} {ts : List TokenTree}
    (hts : test ts = false) (n : Nat) : manyUpTo test part n ts = some ([], ts) := by
  cases n with
  | zero => rfl
  | succ n => rw [manyUpTo_succ, if_neg (by simp [hts])]

/-- Where each part takes a token, no more rounds are needed than there are tokens. -/
theorem manyUpTo_eq_manyUpTo {test : Ahead} {part : Take α}
    (hpart : ∀ {ts a rest}, part ts = some (a, rest) → rest.length < ts.length)
    (htest : test [] = false) {n m : Nat} {ts : List TokenTree} (hn : ts.length ≤ n)
    (hm : ts.length ≤ m) : manyUpTo test part n ts = manyUpTo test part m ts := by
  induction n generalizing m ts with
  | zero =>
    obtain rfl : ts = [] := List.length_eq_zero_iff.1 (by omega)
    rw [manyUpTo_of_not htest, manyUpTo_of_not htest]
  | succ n ih =>
    cases m with
    | zero =>
      obtain rfl : ts = [] := List.length_eq_zero_iff.1 (by omega)
      rw [manyUpTo_of_not htest, manyUpTo_of_not htest]
    | succ m =>
      rw [manyUpTo_succ, manyUpTo_succ]
      cases hp : part ts with
      | none => rfl
      | some r =>
        have hlt := hpart hp
        rw [Option.bind_some, Option.bind_some, ih (m := m) (by omega) (by omega)]

/-- One more part in front is one more part taken. -/
theorem many_cons {test : Ahead} {part : Take α}
    (hpart : ∀ {ts a rest}, part ts = some (a, rest) → rest.length < ts.length)
    (htest : test [] = false) {ts rest : List TokenTree} {a : α} (hts : test ts = true)
    (h : part ts = some (a, rest)) :
    many test part ts = (many test part rest).map fun r => (a :: r.1, r.2) := by
  have hlt := hpart h
  obtain ⟨n, hn⟩ : ∃ n, ts.length = n + 1 := ⟨ts.length - 1, by omega⟩
  have hrounds : manyUpTo test part n rest = manyUpTo test part rest.length rest :=
    manyUpTo_eq_manyUpTo hpart htest (by omega) (by omega)
  rw [many, hn, manyUpTo_succ, if_pos hts, h, Option.bind_some, hrounds]
  rfl

end Take

/-! ## Attributes -/

theorem Grammar.length_le_of_readOperator {cs : List Char} {ts printed rest : List TokenTree}
    (h : readOperator cs ts = some (printed, rest)) : rest.length ≤ ts.length := by
  fun_induction readOperator cs ts generalizing printed with
  | case1 ts =>
    cases h
    exact Nat.le_refl _
  | case2 c s rest =>
    cases h
    simp
  | case3 => cases h
  | case4 c s rest cs hcs ih =>
    obtain ⟨r, hr, heq⟩ := Option.map_eq_some_iff.1 h
    cases heq
    have hle := ih hr
    simp only [List.length_cons]
    omega
  | case5 => cases h
  | case6 => cases h

namespace Attribute

open Grammar

theorem length_lt_of_take {ts rest : List TokenTree} {a : Attribute}
    (h : take (op "#") ts = some (a, rest)) : rest.length < ts.length := by
  rw [take, Take.bind_apply, Option.bind_eq_some_iff] at h
  obtain ⟨⟨signs, behind⟩, hsigns, h⟩ := h
  rw [Take.bind_apply, Option.bind_eq_some_iff] at h
  obtain ⟨⟨⟨content, s⟩, behind'⟩, hwithin, h⟩ := h
  have hlt := Take.length_lt_of_within hwithin
  have hle : behind.length ≤ ts.length :=
    length_le_of_readOperator (show readOperator ['#'] ts = some (signs, behind) from hsigns)
  cases h
  exact Nat.lt_of_lt_of_le hlt hle

theorem takeOuter_cons {ts rest : List TokenTree} {a : Attribute}
    (hts : operatorAhead "#" ts = true) (h : take (op "#") ts = some (a, rest)) :
    takeOuter ts = (takeOuter rest).map fun r => (a :: r.1, r.2) :=
  Take.many_cons length_lt_of_take rfl hts h

end Attribute

/-- An attribute in front of the tokens of a block is one in front of the block. -/
theorem ImplBlock.take_cons {ts rest : List TokenTree} {a : Attribute}
    (hts : Grammar.operatorAhead "#" ts = true)
    (h : Attribute.take (Grammar.op "#") ts = some (a, rest)) :
    take ts = (take rest).map fun r =>
      ({ r.1 with attributes := a :: r.1.attributes }, r.2) := by
  simp only [take, Take.bind_apply, Attribute.takeOuter_cons hts h, Option.map_bind,
    Option.bind_map, Function.comp_def]
  rfl

end CommandBot
