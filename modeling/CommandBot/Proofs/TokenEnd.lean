import CommandBot.Token.Literal

/-
  Where a token ends. A blank or a closing bracket ends every token before it (`endsToken`), so that
  a scanner that takes some characters there (`Takes`) takes them in every other such place.
-/

namespace CommandBot.Literal

open CommandBot.Text

/-- Whether a character ends every token before it. -/
def isEnding (c : Char) : Bool := [' ', '\n', ')', ']'].contains c

/-- Whether what follows ends every token before it. -/
def endsToken : List Char → Bool
  | [] => true
  | c :: _ => isEnding c

/-- A scanner takes some characters whenever they stand before the end of a token. -/
def Takes (s : Scanner) (t : List Char) : Prop := ∀ r, endsToken r = true → s (t ++ r) = some r

theorem forall_isEnding {P : Char → Prop} (hblank : P ' ') (hline : P '\n') (hround : P ')')
    (hsquare : P ']') {c : Char} (h : isEnding c = true) : P c := by
  simp only [isEnding, List.contains_cons, Bool.or_eq_true, beq_iff_eq] at h
  rcases h with rfl | rfl | rfl | rfl | h
  · exact hblank
  · exact hline
  · exact hround
  · exact hsquare
  · cases h

theorem isIdentifierPart_of_isEnding {c : Char} (h : isEnding c = true) :
    isIdentifierPart c = false :=
  forall_isEnding (P := fun c => isIdentifierPart c = false) (by decide) (by decide) (by decide)
    (by decide) h

theorem isIdentifierStart_of_isEnding {c : Char} (h : isEnding c = true) :
    isIdentifierStart c = false :=
  forall_isEnding (P := fun c => isIdentifierStart c = false) (by decide) (by decide) (by decide)
    (by decide) h

/-! ## The first character -/

theorem all_head?_append {P : Char → Bool} {s r x : List Char}
    (h : (s ++ r).head?.all P = true) (hx : x.head?.all P = true) :
    (s ++ x).head?.all P = true := by
  cases s with
  | nil => exact hx
  | cons c s => exact h

theorem all_head?_mono {P Q : Char → Bool} (hPQ : ∀ c, P c = true → Q c = true) {cs : List Char}
    (h : cs.head?.all P = true) : cs.head?.all Q = true := by
  cases cs with
  | nil => rfl
  | cons c cs => exact hPQ c h

theorem all_head?_of_endsToken {P : Char → Bool} (hP : ∀ c, isEnding c = true → P c = true)
    {x : List Char} (h : endsToken x = true) : x.head?.all P = true := by
  cases x with
  | nil => rfl
  | cons c x => exact hP c h

theorem all_head?_dropWhile (p : Char → Bool) (cs : List Char) :
    (cs.dropWhile p).head?.all (fun c => !p c) = true := by
  induction cs with
  | nil => rfl
  | cons c cs ih =>
    rw [List.dropWhile_cons]
    split
    · exact ih
    · rename_i h
      simpa using h

theorem head?_append_any {p : Char → Bool} {t : List Char} (h : t.head?.any p = true)
    (x : List Char) : (t ++ x).head?.any p = true := by
  cases t with
  | nil => cases h
  | cons c t => exact h

/-! ## Stretches of characters -/

theorem dropWhile_append_of_all {p : Char → Bool} {s : List Char} (h : s.all p = true)
    (r : List Char) : (s ++ r).dropWhile p = r.dropWhile p := by
  induction s with
  | nil => rfl
  | cons c s ih =>
    rw [List.all_cons, Bool.and_eq_true] at h
    rw [List.cons_append, List.dropWhile_cons, if_pos h.1, ih h.2]

theorem dropWhile_of_head? {p : Char → Bool} {y : List Char}
    (hy : y.head?.all (fun c => !p c) = true) : y.dropWhile p = y := by
  cases y with
  | nil => rfl
  | cons c y =>
    rw [List.dropWhile_cons, if_neg]
    simpa using hy

theorem dropWhile_append_of_head? {p : Char → Bool} {x : List Char}
    (hx : x.head?.all (fun c => !p c) = true) (u : List Char) :
    (u ++ x).dropWhile p = u.dropWhile p ++ x := by
  induction u with
  | nil => exact dropWhile_of_head? hx
  | cons c u ih =>
    rw [List.cons_append, List.dropWhile_cons, List.dropWhile_cons, ih]
    split
    · rfl
    · rw [List.cons_append]

theorem takeWhile_append_of_all {p : Char → Bool} {s y : List Char} (hs : s.all p = true)
    (hy : y.head?.all (fun c => !p c) = true) : (s ++ y).takeWhile p = s := by
  induction s with
  | nil =>
    cases y with
    | nil => rfl
    | cons c y =>
      rw [List.nil_append, List.takeWhile_cons, if_neg]
      simpa using hy
  | cons c s ih =>
    rw [List.all_cons, Bool.and_eq_true] at hs
    rw [List.cons_append, List.takeWhile_cons, if_pos hs.1, ih hs.2]

theorem takeWhile_append_of_head? {p : Char → Bool} {x : List Char}
    (hx : x.head?.all (fun c => !p c) = true) (u : List Char) :
    (u ++ x).takeWhile p = u.takeWhile p := by
  induction u with
  | nil => exact takeWhile_append_of_all rfl hx
  | cons c u ih =>
    rw [List.cons_append, List.takeWhile_cons, List.takeWhile_cons, ih]

theorem all_dropWhile {p q : Char → Bool} {u : List Char} (hu : u.all p = true) :
    (u.dropWhile q).all p = true := by
  rw [List.all_eq_true] at hu ⊢
  exact fun c hc => hu c ((List.dropWhile_suffix q).subset hc)

/-! ## Suffixes -/

/-- What a suffix may be: nothing, or an identifier. -/
inductive IsSuffix : List Char → Prop
  | nothing : IsSuffix []
  | identifier {c : Char} {s : List Char} (hc : isIdentifierStart c = true)
      (hs : s.all isIdentifierPart = true) : IsSuffix (c :: s)

theorem suffix_of_endsToken {r : List Char} (h : endsToken r = true) : suffix r = r := by
  cases r with
  | nil => rfl
  | cons c r =>
    rw [suffix, identifier, isIdentifierStart_of_isEnding h, if_neg (by decide)]
    rfl

theorem suffix_append {s x : List Char} (hs : IsSuffix s) (hx : endsToken x = true) :
    suffix (s ++ x) = x := by
  cases hs with
  | nothing => exact suffix_of_endsToken hx
  | identifier hc hs =>
    rw [List.cons_append, suffix, identifier, if_pos hc, Option.getD_some,
      dropWhile_append_of_all hs]
    refine dropWhile_of_head? (all_head?_of_endsToken (fun c hc => ?_) hx)
    rw [isIdentifierPart_of_isEnding hc]
    rfl

theorem exists_suffix (cs : List Char) : ∃ s, cs = s ++ suffix cs ∧ IsSuffix s := by
  cases cs with
  | nil => exact ⟨[], rfl, .nothing⟩
  | cons c rest =>
    by_cases hc : isIdentifierStart c = true
    · refine ⟨c :: rest.takeWhile isIdentifierPart, ?_, .identifier hc List.all_takeWhile⟩
      rw [suffix, identifier, if_pos hc, Option.getD_some, List.cons_append,
        List.takeWhile_append_dropWhile]
    · refine ⟨[], ?_, .nothing⟩
      rw [suffix, identifier, if_neg hc]
      rfl

/-- A suffix is taken from the front. -/
theorem exists_of_suffix (cs : List Char) :
    ∃ t, cs = t ++ suffix cs ∧ ∀ r, endsToken r = true → suffix (t ++ r) = r := by
  obtain ⟨s, hs, hsuffix⟩ := exists_suffix cs
  exact ⟨s, hs, fun r hr => suffix_append hsuffix hr⟩

/-! ## Steps of a scanner -/

/-- What a step takes goes in front of what the scanner takes after it. -/
theorem exists_of_step {s s' : Scanner} {rest r : List Char} (front : List Char)
    (hstep : ∀ x, s' (front ++ x) = s x) (h : ∃ t, rest = t ++ r ∧ Takes s t) :
    ∃ t, front ++ rest = t ++ r ∧ Takes s' t := by
  obtain ⟨t, rfl, ht⟩ := h
  refine ⟨front ++ t, (List.append_assoc ..).symm, ?_⟩
  intro x hx
  rw [List.append_assoc, hstep, ht x hx]

end CommandBot.Literal
