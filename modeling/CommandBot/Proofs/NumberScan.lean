import CommandBot.Proofs.TokenEnd
import Mathlib.Tactic.ByContra
import Mathlib.Tactic.Push

/-
  Numbers in other places. A number is scanned as one with a point or an exponent, and only else as
  a whole one, so that what is taken depends on what follows. `exists_of_number`: at the end of a
  token it no longer does.
-/

namespace CommandBot.Literal

open CommandBot.Text

/-! ## Digits -/

theorem isDigitOrBreak_of_isEnding {c : Char} (h : isEnding c = true) : isDigitOrBreak c = false :=
  forall_isEnding (P := fun c => isDigitOrBreak c = false) (by decide) (by decide) (by decide)
    (by decide) h

theorem stops_of_endsToken {x : List Char} (hx : endsToken x = true) :
    x.head?.all (fun c => !isDigitOrBreak c) = true :=
  all_head?_of_endsToken (fun c hc => by rw [isDigitOrBreak_of_isEnding hc]; rfl) hx

/-- Whether a character ends the digits of a base. -/
def endsDigits (base : Nat) (c : Char) : Bool :=
  !c.isDigit && !(isHexDigit c && hexValue c < base) && c != '_'

theorem endsDigits_iff {base : Nat} {c : Char} :
    endsDigits base c = true ↔
      ¬c.isDigit = true ∧ ¬(isHexDigit c = true ∧ hexValue c < base) ∧ ¬c = '_' := by
  rw [endsDigits, Bool.and_eq_true, Bool.and_eq_true, Bool.not_eq_true', Bool.not_eq_true',
    bne_iff_ne, ← Bool.not_eq_true, ← Bool.not_eq_true, Bool.and_eq_true, decide_eq_true_eq,
    and_assoc]

theorem endsDigits_of_isEnding {base : Nat} {c : Char} (h : isEnding c = true) :
    endsDigits base c = true := by
  refine forall_isEnding (P := fun c => endsDigits base c = true) ?_ ?_ ?_ ?_ h <;> rfl

theorem stops_of_endsDigits {base : Nat} {c : Char} (h : endsDigits base c = true) :
    (!isDigitOrBreak c) = true := by
  obtain ⟨hd, -, hn⟩ := endsDigits_iff.mp h
  rw [Bool.not_eq_true', ← Bool.not_eq_true, isDigitOrBreak, Bool.or_eq_true, beq_iff_eq]
  exact not_or.mpr ⟨hd, hn⟩

theorem isDigitOrBreak_of_decimal {c : Char} (h : (!endsDigits 10 c) = true) :
    isDigitOrBreak c = true := by
  by_contra hno
  rw [isDigitOrBreak, Bool.or_eq_true, beq_iff_eq, not_or] at hno
  refine absurd (endsDigits_iff.mpr ⟨hno.1, ?_, hno.2⟩) (by simpa using h)
  rintro ⟨hhex, hlt⟩
  have hdecimal : ¬('0' ≤ c ∧ c ≤ '9') := by
    rintro ⟨hle, hge⟩
    apply hno.1
    rw [Char.isDigit, Bool.and_eq_true, decide_eq_true_eq, decide_eq_true_eq]
    exact ⟨hle, hge⟩
  rw [hexValue, if_neg hdecimal] at hlt
  split at hlt
  · omega
  split at hlt
  · omega
  · rename_i hlower hupper
    rw [isHexDigit, Bool.or_eq_true, Bool.or_eq_true, Bool.and_eq_true, Bool.and_eq_true,
      Bool.and_eq_true] at hhex
    simp only [decide_eq_true_eq] at hhex
    rcases hhex with (hhex | hhex) | hhex
    · exact hdecimal hhex
    · exact hlower hhex
    · exact hupper hhex

theorem digitsOf_of_head? {base : Nat} {y : List Char} (h : y.head?.all (endsDigits base) = true) :
    digitsOf base true y = some y := by
  cases y with
  | nil => rfl
  | cons c y =>
    obtain ⟨hd, hv, hn⟩ := endsDigits_iff.mp h
    rw [digitsOf, if_neg hd, if_neg hv, if_neg hn, if_pos rfl]

/-- What the digits of a base take, they take in front of everything that ends them. -/
theorem exists_of_digitsOf {base : Nat} {seen : Bool} {cs r : List Char}
    (h : digitsOf base seen cs = some r) :
    r.head?.all (endsDigits base) = true ∧
      ∃ t, cs = t ++ r ∧ t.all (fun c => !endsDigits base c) = true ∧
        ∀ y, y.head?.all (endsDigits base) = true → digitsOf base seen (t ++ y) = some y := by
  fun_induction digitsOf base seen cs with
  | case1 =>
    cases h
    exact ⟨rfl, [], rfl, rfl, fun y hy => digitsOf_of_head? hy⟩
  | case3 seen c rest hd hv ih =>
    obtain ⟨hr, t, rfl, hall, ht⟩ := ih h
    refine ⟨hr, c :: t, rfl, ?_, fun y hy => ?_⟩
    · rw [List.all_cons, hall, endsDigits, hd]
      rfl
    · rw [List.cons_append, digitsOf, if_pos hd, if_pos hv, ht y hy]
  | case5 seen c rest hd hv ih =>
    obtain ⟨hr, t, rfl, hall, ht⟩ := ih h
    refine ⟨hr, c :: t, rfl, ?_, fun y hy => ?_⟩
    · rw [List.all_cons, hall, endsDigits, hv.1, decide_eq_true hv.2]
      simp
    · rw [List.cons_append, digitsOf, if_neg hd, if_pos hv, ht y hy]
  | case7 seen rest hseen hd hv ih =>
    obtain ⟨hr, t, rfl, hall, ht⟩ := ih h
    refine ⟨hr, '_' :: t, rfl, ?_, fun y hy => ?_⟩
    · rw [List.all_cons, hall, endsDigits, bne_self_eq_false, Bool.and_false]
      rfl
    · rw [List.cons_append, digitsOf, if_neg hd, if_neg hv, if_pos rfl, if_neg hseen, ht y hy]
  | case8 c rest hd hv hn =>
    cases h
    exact ⟨endsDigits_iff.mpr ⟨hd, hv, hn⟩, [], rfl, rfl, fun y hy => digitsOf_of_head? hy⟩
  | _ => cases h

theorem head?_of_digitsOf {cs q : List Char} (h : digitsOf 10 false cs = some q) :
    cs.head?.any Char.isDigit = true := by
  cases cs with
  | nil => cases h
  | cons c cs =>
    by_contra hno
    have hdigit : ¬c.isDigit = true := hno
    rw [digitsOf, if_neg hdigit] at h
    split at h
    · rename_i hhex
      have hbreak := isDigitOrBreak_of_decimal (c := c) (by simp [endsDigits, hhex])
      rw [isDigitOrBreak, Bool.or_eq_true, beq_iff_eq] at hbreak
      rw [hbreak.resolve_left hdigit] at hhex
      exact absurd hhex (by decide)
    · split at h
      · cases h
      · cases h

/-! ## Where a number ends -/

theorem ended_eq_some_iff {cs r : List Char} :
    ended cs = some r ↔ suffix cs = r ∧ r.head?.all (fun c => !isIdentifierPart c) = true := by
  unfold ended
  cases hcs : suffix cs with
  | nil =>
    rw [Option.some.injEq]
    exact ⟨fun h => ⟨h, h ▸ rfl⟩, fun h => h.1⟩
  | cons c rest =>
    show (if isIdentifierPart c = true then none else some (c :: rest)) = some r ↔ _
    by_cases hc : isIdentifierPart c = true
    · rw [if_pos hc]
      constructor
      · intro h
        cases h
      · rintro ⟨rfl, h⟩
        simp [hc] at h
    · rw [if_neg hc, Option.some.injEq]
      constructor
      · rintro rfl
        simp [hc]
      · exact fun h => h.1

theorem ended_append {s x : List Char} (hs : IsSuffix s) (hx : endsToken x = true) :
    ended (s ++ x) = some x :=
  ended_eq_some_iff.mpr ⟨suffix_append hs hx,
    all_head?_of_endsToken (fun c hc => by rw [isIdentifierPart_of_isEnding hc]; rfl) hx⟩

/-- Behind characters of identifiers a number ends at the end of the token, if at all. -/
theorem ended_of_all {u x y : List Char} (hu : u.all isIdentifierPart = true)
    (hx : endsToken x = true) (h : ended (u ++ x) = some y) : y = x := by
  cases u with
  | nil => exact (Option.some.inj ((ended_append .nothing hx).symm.trans h)).symm
  | cons c u =>
    rw [List.all_cons, Bool.and_eq_true] at hu
    by_cases hc : isIdentifierStart c = true
    · exact (Option.some.inj ((ended_append (.identifier hc hu.2) hx).symm.trans h)).symm
    · have hsuffix : suffix (c :: u ++ x) = c :: u ++ x := by
        rw [List.cons_append, suffix, identifier, if_neg hc]
        rfl
      obtain ⟨hy, hhead⟩ := ended_eq_some_iff.mp h
      rw [← hy, hsuffix] at hhead
      simp [hu.1] at hhead

/-! ## Exponents -/

/-- The digits of an exponent behind its sign. -/
def exponentDigits (cs : List Char) : Option (List Char) :=
  if (cs.takeWhile isDigitOrBreak).any Char.isDigit then some (cs.dropWhile isDigitOrBreak)
  else none

theorem exponent_eq (cs : List Char) :
    exponent cs =
      match cs.dropWhile (· == '_') with
      | c :: rest => if c = '+' ∨ c = '-' then exponentDigits rest else exponentDigits cs
      | [] => none := rfl

theorem exists_of_exponentDigits {cs r : List Char} (h : exponentDigits cs = some r) :
    r.head?.all (fun c => !isDigitOrBreak c) = true ∧
      ∃ t, cs = t ++ r ∧ t.all isDigitOrBreak = true ∧ t.any Char.isDigit = true := by
  unfold exponentDigits at h
  split at h
  · rename_i hany
    cases h
    exact ⟨all_head?_dropWhile isDigitOrBreak cs, cs.takeWhile isDigitOrBreak,
      List.takeWhile_append_dropWhile.symm, List.all_takeWhile, hany⟩
  · cases h

theorem exponentDigits_append {t y : List Char} (ht : t.all isDigitOrBreak = true)
    (hany : t.any Char.isDigit = true) (hy : y.head?.all (fun c => !isDigitOrBreak c) = true) :
    exponentDigits (t ++ y) = some y := by
  rw [exponentDigits, takeWhile_append_of_all ht hy, if_pos hany, dropWhile_append_of_all ht,
    dropWhile_of_head? hy]

/-- Digits begin with one, breaks aside. -/
theorem exists_dropWhile_break {t : List Char} (ht : t.all isDigitOrBreak = true)
    (hany : t.any Char.isDigit = true) (y : List Char) :
    ∃ c rest, (t ++ y).dropWhile (· == '_') = c :: rest ∧ c.isDigit = true := by
  induction t with
  | nil => cases hany
  | cons c t ih =>
    rw [List.all_cons, Bool.and_eq_true] at ht
    rw [List.cons_append, List.dropWhile_cons]
    by_cases hc : (c == '_') = true
    · rw [if_pos hc]
      rw [List.any_cons, eq_of_beq hc] at hany
      exact ih ht.2 hany
    · rw [if_neg hc]
      have hdigit := ht.1
      rw [isDigitOrBreak, Bool.or_eq_true] at hdigit
      exact ⟨c, t ++ y, rfl, hdigit.resolve_right hc⟩

theorem exponent_of_digits {t : List Char} (ht : t.all isDigitOrBreak = true)
    (hany : t.any Char.isDigit = true) (y : List Char) :
    exponent (t ++ y) = exponentDigits (t ++ y) := by
  obtain ⟨c, rest, hdrop, hc⟩ := exists_dropWhile_break ht hany y
  rw [exponent_eq, hdrop]
  show (if c = '+' ∨ c = '-' then _ else _) = _
  rw [if_neg]
  rintro (rfl | rfl) <;> exact absurd hc (by decide)

/-- What an exponent takes, it takes in front of everything that is no digit. -/
theorem exists_of_exponent {cs r : List Char} (h : exponent cs = some r) :
    r.head?.all (fun c => !isDigitOrBreak c) = true ∧
      ∃ t, cs = t ++ r ∧
        ∀ y, y.head?.all (fun c => !isDigitOrBreak c) = true → exponent (t ++ y) = some y := by
  rw [exponent_eq] at h
  split at h
  · rename_i c rest hcs
    have hfront : cs = cs.takeWhile (· == '_') ++ c :: rest := by
      rw [← hcs, List.takeWhile_append_dropWhile]
    have hstop : (!(c == '_')) = true := by
      have := all_head?_dropWhile (· == '_') cs
      rwa [hcs] at this
    split at h
    · rename_i hsign
      obtain ⟨hr, t, rfl, ht, hany⟩ := exists_of_exponentDigits h
      refine ⟨hr, cs.takeWhile (· == '_') ++ c :: t, by rw [List.append_assoc]; exact hfront, ?_⟩
      intro y hy
      rw [exponent_eq, List.append_assoc, dropWhile_append_of_all List.all_takeWhile]
      rw [List.cons_append, List.dropWhile_cons, if_neg (by simpa using hstop)]
      show (if c = '+' ∨ c = '-' then exponentDigits (t ++ y) else _) = _
      rw [if_pos hsign, exponentDigits_append ht hany hy]
    · rename_i hsign
      obtain ⟨hr, t, rfl, ht, hany⟩ := exists_of_exponentDigits h
      refine ⟨hr, t, rfl, fun y hy => ?_⟩
      rw [exponent_of_digits ht hany, exponentDigits_append ht hany hy]
  · cases h

/-- What may stand before the end of a token, in or behind a word, is no sign. -/
theorem not_sign {u x rest : List Char} {c : Char} (hu : u.all isIdentifierPart = true)
    (hx : endsToken x = true) (h : u ++ x = c :: rest) : ¬(c = '+' ∨ c = '-') := by
  cases u with
  | nil =>
    cases h
    refine forall_isEnding (P := fun c => ¬(c = '+' ∨ c = '-')) ?_ ?_ ?_ ?_ hx <;> decide
  | cons d u =>
    cases h
    rw [List.all_cons, Bool.and_eq_true] at hu
    rintro (rfl | rfl) <;> exact absurd hu.1 (by decide)

/-- An exponent that the end of a token ends is one in every other place too. -/
theorem exists_of_exponent_append {u x v : List Char} (hu : u.all isIdentifierPart = true)
    (hx : endsToken x = true) (h : exponent (u ++ x) = some v) :
    (∃ w, v = w ++ x ∧ w.all isIdentifierPart = true) ∧ ∀ r, ∃ v', exponent (u ++ r) = some v' := by
  have hdigit : x.head?.all (fun c => !isDigitOrBreak c) = true :=
    all_head?_of_endsToken (fun c hc => by rw [isDigitOrBreak_of_isEnding hc]; rfl) hx
  have hbreak : x.head?.all (fun c => !(c == '_')) = true :=
    all_head?_of_endsToken (fun c hc => forall_isEnding (P := fun c => (!(c == '_')) = true)
      (by decide) (by decide) (by decide) (by decide) hc) hx
  have hdigits : exponentDigits (u ++ x) = some v := by
    rw [exponent_eq] at h
    split at h
    · rename_i c rest hcs
      rw [dropWhile_append_of_head? hbreak] at hcs
      rwa [if_neg (not_sign (all_dropWhile hu) hx hcs)] at h
    · cases h
  unfold exponentDigits at hdigits
  rw [takeWhile_append_of_head? hdigit, dropWhile_append_of_head? hdigit] at hdigits
  split at hdigits
  · rename_i hany
    cases hdigits
    refine ⟨⟨u.dropWhile isDigitOrBreak, rfl, all_dropWhile hu⟩, fun r => ?_⟩
    have hsplit : u ++ r = u.takeWhile isDigitOrBreak ++ (u.dropWhile isDigitOrBreak ++ r) := by
      rw [← List.append_assoc, List.takeWhile_append_dropWhile]
    rw [hsplit, exponent_of_digits List.all_takeWhile hany, exponentDigits, if_pos]
    · exact ⟨_, rfl⟩
    · rw [List.takeWhile_append_of_pos fun c hc => List.all_eq_true.mp List.all_takeWhile c hc,
        List.any_append, hany, Bool.true_or]
  · cases hdigits

/-! ## Fractions -/

/-- What follows the digits of a number that is written with a point, or with an exponent. -/
def fractionTail (dotted : Bool) (cs : List Char) : Option (List Char) :=
  let whole := if dotted then some cs else none
  match cs with
  | c :: rest => if c = 'e' ∨ c = 'E' then (exponent rest).or whole else whole
  | [] => whole

def isExponentLetter (c : Char) : Bool := c == 'e' || c == 'E'

theorem isExponentLetter_of_isEnding {c : Char} (h : isEnding c = true) :
    isExponentLetter c = false :=
  forall_isEnding (P := fun c => isExponentLetter c = false) (by decide) (by decide) (by decide)
    (by decide) h

theorem fractionTail_of_exponent {c : Char} {rest v : List Char} (hc : isExponentLetter c = true)
    (h : exponent rest = some v) (dotted : Bool) : fractionTail dotted (c :: rest) = some v := by
  rw [isExponentLetter, Bool.or_eq_true, beq_iff_eq, beq_iff_eq] at hc
  rw [fractionTail]
  simp only [if_pos hc, h, Option.some_or]

theorem fractionTail_of_no_exponent {cs : List Char}
    (h : ∀ c rest, cs = c :: rest → isExponentLetter c = true → exponent rest = none)
    (dotted : Bool) : fractionTail dotted cs = if dotted then some cs else none := by
  cases cs with
  | nil => rfl
  | cons c rest =>
    rw [fractionTail]
    by_cases hc : c = 'e' ∨ c = 'E'
    · have hnone := h c rest rfl (by simpa [isExponentLetter] using hc)
      simp only [if_pos hc, hnone, Option.none_or]
    · simp only [if_neg hc]

theorem exponent_cases (cs : List Char) :
    (∃ c rest v, cs = c :: rest ∧ isExponentLetter c = true ∧ exponent rest = some v) ∨
      ∀ c rest, cs = c :: rest → isExponentLetter c = true → exponent rest = none := by
  by_cases h : ∀ c rest, cs = c :: rest → isExponentLetter c = true → exponent rest = none
  · exact .inr h
  · push Not at h
    obtain ⟨c, rest, hcs, hc, hexp⟩ := h
    obtain ⟨v, hv⟩ := Option.ne_none_iff_exists'.mp hexp
    exact .inl ⟨c, rest, v, hcs, hc, hv⟩

/-- An exponent behind the letter that begins a suffix, up to the end of the token. -/
theorem exists_of_exponent_suffix {s x rest v : List Char} {c : Char} (hs : IsSuffix s)
    (hx : endsToken x = true) (hcs : s ++ x = c :: rest) (hc : isExponentLetter c = true)
    (h : exponent rest = some v) :
    (∃ w, v = w ++ x ∧ w.all isIdentifierPart = true) ∧
      ∀ r, ∃ rest' v', s ++ r = c :: rest' ∧ exponent rest' = some v' := by
  cases hs with
  | nothing =>
    cases hcs
    rw [isExponentLetter_of_isEnding hx] at hc
    cases hc
  | identifier hstart hpart =>
    rw [List.cons_append, List.cons.injEq] at hcs
    obtain ⟨rfl, rfl⟩ := hcs
    obtain ⟨hw, hall⟩ := exists_of_exponent_append hpart hx h
    refine ⟨hw, fun r => ?_⟩
    obtain ⟨v', hv'⟩ := hall r
    exact ⟨_, v', rfl, hv'⟩

/-- What follows the digits of a number, up to the end of its suffix. -/
theorem exists_of_fractionTail {dotted : Bool} {cs q r : List Char}
    (h : fractionTail dotted cs = some q) (hended : ended q = some r) :
    ∃ t, cs = t ++ r ∧ ∀ x, endsToken x = true →
      ∃ q', fractionTail dotted (t ++ x) = some q' ∧ ended q' = some x := by
  obtain ⟨hsuffix, -⟩ := ended_eq_some_iff.mp hended
  obtain ⟨s, hs, hsuf⟩ := exists_suffix q
  rw [hsuffix] at hs
  rcases exponent_cases cs with ⟨c, rest, v, rfl, hc, hv⟩ | hno
  · rw [fractionTail_of_exponent hc hv, Option.some.injEq] at h
    rw [h] at hv
    rw [hs] at hv
    obtain ⟨hr, t, rfl, ht⟩ := exists_of_exponent hv
    refine ⟨c :: (t ++ s), by rw [List.cons_append, List.append_assoc], fun x hx => ?_⟩
    refine ⟨s ++ x, ?_, ended_append hsuf hx⟩
    rw [List.cons_append, List.append_assoc]
    refine fractionTail_of_exponent hc (ht _ (all_head?_append hr ?_)) dotted
    exact all_head?_of_endsToken (fun c hc => by rw [isDigitOrBreak_of_isEnding hc]; rfl) hx
  · rw [fractionTail_of_no_exponent hno] at h
    cases dotted with
    | false => cases h
    | true =>
      cases h
      refine ⟨s, hs, fun x hx => ⟨s ++ x, ?_, ended_append hsuf hx⟩⟩
      refine fractionTail_of_no_exponent (fun c rest hcs hc => ?_) true
      by_contra hexp
      obtain ⟨v, hv⟩ := Option.ne_none_iff_exists'.mp hexp
      obtain ⟨-, hall⟩ := exists_of_exponent_suffix hsuf hx hcs hc hv
      obtain ⟨rest', v', hrest, hv'⟩ := hall r
      rw [hno c rest' (hs.trans hrest) hc] at hv'
      cases hv'

/-- What may not follow a point: a second one, or the name of a field. -/
def endsPoint (c : Char) : Bool := !(c == '.' || isIdentifierStart c)

theorem endsPoint_iff {c : Char} :
    endsPoint c = true ↔ ¬(c = '.' ∨ isIdentifierStart c = true) := by
  rw [endsPoint, Bool.not_eq_true', ← Bool.not_eq_true, Bool.or_eq_true, beq_iff_eq]

theorem endsPoint_of_isEnding {c : Char} (h : isEnding c = true) : endsPoint c = true :=
  endsPoint_iff.mpr fun hc => by
    rw [isIdentifierStart_of_isEnding h] at hc
    refine absurd (hc.resolve_right (by decide)) ?_
    rintro rfl
    exact absurd h (by decide)

theorem fraction_of_point {cs rest : List Char} (hdigit : cs.head?.any Char.isDigit = true)
    (h : cs.dropWhile isDigitOrBreak = '.' :: rest) :
    fraction cs =
      if rest.head?.all endsPoint then fractionTail true (rest.dropWhile isDigitOrBreak)
      else none := by
  cases cs with
  | nil => cases hdigit
  | cons c cs =>
    rw [fraction, if_neg (by simpa using hdigit)]
    simp only [h]
    cases rest with
    | nil => rfl
    | cons d rest =>
      show (if d = '.' ∨ isIdentifierStart d = true then none else _) =
        if endsPoint d = true then _ else none
      by_cases hd : d = '.' ∨ isIdentifierStart d = true
      · rw [if_pos hd, if_neg fun h => endsPoint_iff.mp h hd]
      · rw [if_neg hd, if_pos (endsPoint_iff.mpr hd)]
        rfl

theorem fraction_of_no_point {cs : List Char} (hdigit : cs.head?.any Char.isDigit = true)
    (h : ∀ rest, cs.dropWhile isDigitOrBreak ≠ '.' :: rest) :
    fraction cs = fractionTail false (cs.dropWhile isDigitOrBreak) := by
  cases cs with
  | nil => cases hdigit
  | cons c cs =>
    rw [fraction, if_neg (by simpa using hdigit)]
    split
    · rename_i heq
      exact absurd heq (h _)
    · rfl

theorem fraction_of_not_digit {cs : List Char} (hdigit : ¬cs.head?.any Char.isDigit = true) :
    fraction cs = none := by
  cases cs with
  | nil => rfl
  | cons c cs =>
    rw [fraction, if_pos]
    simpa using hdigit

/-- The digits at the front of a number. -/
theorem head?_takeWhile_any {cs : List Char} (h : cs.head?.any Char.isDigit = true) :
    (cs.takeWhile isDigitOrBreak).head?.any Char.isDigit = true := by
  cases cs with
  | nil => cases h
  | cons c cs =>
    have hc : isDigitOrBreak c = true := by
      rw [isDigitOrBreak, show c.isDigit = true from h, Bool.true_or]
    rw [List.takeWhile_cons, if_pos hc]
    exact h

/-- What a number with a point or an exponent takes, up to the end of its suffix. -/
theorem exists_of_fraction {cs q r : List Char} (h : fraction cs = some q)
    (hended : ended q = some r) :
    ∃ t, cs = t ++ r ∧ t.head?.any Char.isDigit = true ∧ ∀ x, endsToken x = true →
      ∃ q', fraction (t ++ x) = some q' ∧ ended q' = some x := by
  have hdigit : cs.head?.any Char.isDigit = true := by
    by_contra hno
    rw [fraction_of_not_digit hno] at h
    cases h
  have hfront := head?_takeWhile_any hdigit
  have hsplit : cs = cs.takeWhile isDigitOrBreak ++ cs.dropWhile isDigitOrBreak :=
    List.takeWhile_append_dropWhile.symm
  have hstop := all_head?_dropWhile isDigitOrBreak cs
  by_cases hpoint : ∃ rest, cs.dropWhile isDigitOrBreak = '.' :: rest
  · obtain ⟨rest, hrest⟩ := hpoint
    rw [fraction_of_point hdigit hrest] at h
    have hend : rest.head?.all endsPoint = true := by
      by_contra hno
      rw [if_neg hno] at h
      cases h
    rw [if_pos hend] at h
    obtain ⟨t, ht, hall⟩ := exists_of_fractionTail h hended
    have hrest' : rest = rest.takeWhile isDigitOrBreak ++ (t ++ r) := by
      rw [← ht, List.takeWhile_append_dropWhile]
    refine ⟨cs.takeWhile isDigitOrBreak ++ '.' :: (rest.takeWhile isDigitOrBreak ++ t), ?_,
      head?_append_any hfront _, fun x hx => ?_⟩
    · rw [List.append_assoc, List.cons_append, List.append_assoc, ← hrest', ← hrest]
      exact hsplit
    · obtain ⟨q', hq', hended'⟩ := hall x hx
      refine ⟨q', ?_, hended'⟩
      have htx : (t ++ x).head?.all (fun c => !isDigitOrBreak c) = true :=
        all_head?_append (ht ▸ all_head?_dropWhile isDigitOrBreak rest) (stops_of_endsToken hx)
      have hdot : (cs.takeWhile isDigitOrBreak ++
          '.' :: (rest.takeWhile isDigitOrBreak ++ (t ++ x))).dropWhile isDigitOrBreak =
          '.' :: (rest.takeWhile isDigitOrBreak ++ (t ++ x)) := by
        rw [dropWhile_append_of_all List.all_takeWhile]
        rfl
      have hendx : (rest.takeWhile isDigitOrBreak ++ (t ++ x)).head?.all endsPoint = true := by
        rw [← List.append_assoc]
        refine all_head?_append (r := r) ?_
          (all_head?_of_endsToken (fun c => endsPoint_of_isEnding) hx)
        rw [List.append_assoc, ← hrest']
        exact hend
      rw [List.append_assoc, List.cons_append, List.append_assoc,
        fraction_of_point (head?_append_any hfront _) hdot, if_pos hendx,
        dropWhile_append_of_all List.all_takeWhile, dropWhile_of_head? htx, hq']
  · push Not at hpoint
    rw [fraction_of_no_point hdigit hpoint] at h
    obtain ⟨t, ht, hall⟩ := exists_of_fractionTail h hended
    refine ⟨cs.takeWhile isDigitOrBreak ++ t, ?_, head?_append_any hfront _, fun x hx => ?_⟩
    · rw [List.append_assoc, ← ht]
      exact hsplit
    · obtain ⟨q', hq', hended'⟩ := hall x hx
      refine ⟨q', ?_, hended'⟩
      have hdrop : (cs.takeWhile isDigitOrBreak ++ (t ++ x)).dropWhile isDigitOrBreak = t ++ x := by
        rw [dropWhile_append_of_all List.all_takeWhile, dropWhile_of_head?]
        exact all_head?_append (ht ▸ hstop) (stops_of_endsToken hx)
      rw [List.append_assoc, fraction_of_no_point (head?_append_any hfront _), hdrop, hq']
      intro rest hrest
      rw [hdrop] at hrest
      have hhead : (t ++ x).head?.all (fun c => !(c == '.')) = true := by
        refine all_head?_append (r := r) ?_ (all_head?_of_endsToken (fun c hc => ?_) hx)
        · rw [← ht]
          cases hcs : cs.dropWhile isDigitOrBreak with
          | nil => rfl
          | cons c rest =>
            have hne : c ≠ '.' := fun hc => hpoint rest (hc ▸ hcs)
            simpa using hne
        · exact forall_isEnding (P := fun c => (!(c == '.')) = true) (by decide) (by decide)
            (by decide) (by decide) hc
      rw [hrest] at hhead
      cases hhead

/-! ## Whole numbers -/

/-- Whether a number names its base. -/
def namesBase : List Char → Bool
  | c :: d :: _ => c == '0' && (d == 'x' || d == 'o' || d == 'b')
  | _ => false

theorem whole_of_not_namesBase {cs : List Char} (h : ¬namesBase cs = true) :
    whole cs = digitsOf 10 false cs := by
  unfold whole
  split
  · exact absurd rfl h
  · exact absurd rfl h
  · exact absurd rfl h
  · rfl

theorem namesBase_append {t r x : List Char} (h : ¬namesBase (t ++ r) = true)
    (hx : endsToken x = true) : ¬namesBase (t ++ x) = true := by
  match t, x with
  | [], [] => exact Bool.false_ne_true
  | [], [c] => exact Bool.false_ne_true
  | [], c :: d :: x =>
    have hzero : (c == '0') = false :=
      forall_isEnding (P := fun c => (c == '0') = false) rfl rfl rfl rfl hx
    show ¬(c == '0' && (d == 'x' || d == 'o' || d == 'b')) = true
    rw [hzero, Bool.false_and]
    decide
  | [c], [] => exact Bool.false_ne_true
  | [c], d :: x =>
    have hbase : (d == 'x' || d == 'o' || d == 'b') = false :=
      forall_isEnding (P := fun d => (d == 'x' || d == 'o' || d == 'b') = false) rfl rfl rfl rfl hx
    show ¬(c == '0' && (d == 'x' || d == 'o' || d == 'b')) = true
    rw [hbase, Bool.and_false]
    decide
  | c :: d :: t, x => exact h

theorem fraction_of_namesBase {cs : List Char} (h : namesBase cs = true) : fraction cs = none := by
  match cs with
  | [] => rfl
  | [c] => cases h
  | c :: d :: rest =>
    rw [namesBase, Bool.and_eq_true, beq_iff_eq] at h
    obtain ⟨rfl, hd⟩ := h
    have hcases : isDigitOrBreak d = false ∧ isExponentLetter d = false ∧ d ≠ '.' := by
      rw [Bool.or_eq_true, Bool.or_eq_true, beq_iff_eq, beq_iff_eq, beq_iff_eq] at hd
      rcases hd with (rfl | rfl) | rfl <;> decide
    obtain ⟨hbreak, hletter, hpoint⟩ := hcases
    have hdrop : ('0' :: d :: rest).dropWhile isDigitOrBreak = d :: rest := by
      rw [List.dropWhile_cons, if_pos (by decide), List.dropWhile_cons, if_neg (by simp [hbreak])]
    rw [fraction_of_no_point rfl, hdrop, fractionTail_of_no_exponent]
    · rfl
    · rintro c rest' hcs hc
      cases hcs
      rw [hletter] at hc
      cases hc
    · rw [hdrop]
      rintro rest' heq
      cases heq
      exact hpoint rfl

/-- The digits of the base that a number names. -/
theorem exists_of_whole_of_namesBase {cs q : List Char} (h : namesBase cs = true)
    (hq : whole cs = some q) :
    ∃ base t, q.head?.all (endsDigits base) = true ∧ cs = t ++ q ∧
      ∀ y, y.head?.all (endsDigits base) = true →
        namesBase (t ++ y) = true ∧ whole (t ++ y) = some y := by
  unfold whole at hq
  split at hq
  · obtain ⟨hhead, t, rfl, -, ht⟩ := exists_of_digitsOf hq
    exact ⟨16, '0' :: 'x' :: t, hhead, rfl, fun y hy => ⟨rfl, ht y hy⟩⟩
  · obtain ⟨hhead, t, rfl, -, ht⟩ := exists_of_digitsOf hq
    exact ⟨8, '0' :: 'o' :: t, hhead, rfl, fun y hy => ⟨rfl, ht y hy⟩⟩
  · obtain ⟨hhead, t, rfl, -, ht⟩ := exists_of_digitsOf hq
    exact ⟨2, '0' :: 'b' :: t, hhead, rfl, fun y hy => ⟨rfl, ht y hy⟩⟩
  · rename_i hx ho hb
    match cs with
    | [] => cases h
    | [c] => cases h
    | c :: d :: rest =>
      rw [namesBase, Bool.and_eq_true, beq_iff_eq, Bool.or_eq_true, Bool.or_eq_true, beq_iff_eq,
        beq_iff_eq, beq_iff_eq] at h
      obtain ⟨rfl, (rfl | rfl) | rfl⟩ := h
      · exact absurd rfl (hx rest)
      · exact absurd rfl (ho rest)
      · exact absurd rfl (hb rest)

/-- Digits with a suffix that end with the token end there as a number of either kind. -/
theorem fraction_bind_ended_of_decimal {t s x z : List Char} (ht : t.all isDigitOrBreak = true)
    (hs : IsSuffix s) (hstop : (s ++ x).head?.all (fun c => !isDigitOrBreak c) = true)
    (hx : endsToken x = true) (h : (fraction (t ++ (s ++ x))).bind ended = some z) : z = x := by
  obtain ⟨v, hv, hended⟩ := Option.bind_eq_some_iff.mp h
  have hdigit : (t ++ (s ++ x)).head?.any Char.isDigit = true := by
    by_contra hno
    rw [fraction_of_not_digit hno] at hv
    cases hv
  have hdrop : (t ++ (s ++ x)).dropWhile isDigitOrBreak = s ++ x := by
    rw [dropWhile_append_of_all ht, dropWhile_of_head? hstop]
  rw [fraction_of_no_point hdigit, hdrop] at hv
  · rcases exponent_cases (s ++ x) with ⟨c, rest, v', hcs, hc, hv'⟩ | hno
    · rw [hcs, fractionTail_of_exponent hc hv', Option.some.injEq] at hv
      obtain ⟨⟨w, hw, hall⟩, -⟩ := exists_of_exponent_suffix hs hx hcs hc hv'
      rw [← hv, hw] at hended
      exact ended_of_all hall hx hended
    · rw [fractionTail_of_no_exponent hno] at hv
      cases hv
  · rw [hdrop]
    intro rest hrest
    cases hs with
    | nothing =>
      rw [List.nil_append] at hrest
      rw [hrest] at hx
      cases hx
    | identifier hstart hpart =>
      cases hrest
      exact absurd hstart (by decide)

/-- What a whole number takes, up to the end of its suffix. -/
theorem exists_of_whole {cs q r : List Char} (h : whole cs = some q) (hended : ended q = some r) :
    ∃ t, cs = t ++ r ∧ ∀ x, endsToken x = true →
      (∀ z, (fraction (t ++ x)).bind ended = some z → z = x) ∧
        (whole (t ++ x)).bind ended = some x := by
  obtain ⟨hsuffix, -⟩ := ended_eq_some_iff.mp hended
  obtain ⟨s, hs, hsuf⟩ := exists_suffix q
  rw [hsuffix] at hs
  have hends : ∀ base x, q.head?.all (endsDigits base) = true → endsToken x = true →
      (s ++ x).head?.all (endsDigits base) = true := by
    intro base x hq hx
    exact all_head?_append (hs ▸ hq)
      (all_head?_of_endsToken (fun c hc => endsDigits_of_isEnding hc) hx)
  by_cases hbase : namesBase cs = true
  · obtain ⟨base, t, hq, rfl, hall⟩ := exists_of_whole_of_namesBase hbase h
    refine ⟨t ++ s, by rw [List.append_assoc, ← hs], fun x hx => ?_⟩
    obtain ⟨hnames, hwhole⟩ := hall (s ++ x) (hends base x hq hx)
    rw [List.append_assoc, hwhole, fraction_of_namesBase hnames]
    exact ⟨fun z hz => (nomatch hz), ended_append hsuf hx⟩
  · rw [whole_of_not_namesBase hbase] at h
    obtain ⟨hq, t, rfl, hdecimal, hall⟩ := exists_of_digitsOf h
    refine ⟨t ++ s, by rw [List.append_assoc, ← hs], fun x hx => ?_⟩
    have hnames : ¬namesBase (t ++ (s ++ x)) = true := by
      rw [← List.append_assoc]
      refine namesBase_append (r := r) ?_ hx
      rwa [List.append_assoc, ← hs]
    rw [List.append_assoc, whole_of_not_namesBase hnames, hall _ (hends 10 x hq hx)]
    refine ⟨fun z hz => ?_, ended_append hsuf hx⟩
    refine fraction_bind_ended_of_decimal ?_ hsuf ?_ hx hz
    · rw [List.all_eq_true] at hdecimal ⊢
      exact fun c hc => isDigitOrBreak_of_decimal (hdecimal c hc)
    · refine all_head?_append (r := r) ?_ (stops_of_endsToken hx)
      rw [← hs]
      exact all_head?_mono (fun c hc => stops_of_endsDigits hc) hq

theorem head?_of_whole {cs q : List Char} (h : whole cs = some q) :
    cs.head?.any Char.isDigit = true := by
  unfold whole at h
  split at h
  · rfl
  · rfl
  · rfl
  · exact head?_of_digitsOf h

/-! ## Numbers of both kinds -/

/-- A number: with a point or an exponent if it has one, else a whole one. -/
def number : Scanner := fun cs => ((fraction cs).bind ended).or ((whole cs).bind ended)

/-- What a number takes, it takes before the end of every token. -/
theorem exists_of_number {cs r : List Char} (h : number cs = some r) :
    ∃ t, cs = t ++ r ∧ t.head?.any Char.isDigit = true ∧ Takes number t := by
  rcases Option.or_eq_some_iff.mp h with hf | ⟨-, hw⟩
  · obtain ⟨q, hq, hended⟩ := Option.bind_eq_some_iff.mp hf
    obtain ⟨t, ht, hdigit, hall⟩ := exists_of_fraction hq hended
    refine ⟨t, ht, hdigit, fun x hx => ?_⟩
    obtain ⟨q', hq', hended'⟩ := hall x hx
    rw [number, hq', Option.bind_some, hended', Option.some_or]
  · obtain ⟨q, hq, hended⟩ := Option.bind_eq_some_iff.mp hw
    obtain ⟨t, ht, hall⟩ := exists_of_whole hq hended
    refine ⟨t, ht, ?_, fun x hx => ?_⟩
    · obtain ⟨q', hq', -⟩ := Option.bind_eq_some_iff.mp (hall [] rfl).2
      rw [List.append_nil] at hq'
      exact head?_of_whole hq'
    · obtain ⟨hf, hw⟩ := hall x hx
      rw [number, hw]
      cases hz : (fraction (t ++ x)).bind ended with
      | none => rfl
      | some z => rw [hf z hz, Option.some_or]

end CommandBot.Literal
