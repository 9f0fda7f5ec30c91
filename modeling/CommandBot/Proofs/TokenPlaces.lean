import CommandBot.Token.Basic

/-
  Where tokens stand to one another. Places of a text are in order, a stretch lies within another,
  and one stretch comes no later than another. Tokens are `InRow` when each of them comes no later
  than the next and each group holds what is in it; then whatever is in them, however deep, lies
  within the stretch from the first of them to the last (`InRow.liesIn`).
-/

namespace CommandBot

/-! ## The order of places -/

namespace Position

instance : LE Position := ⟨fun p q => p.line < q.line ∨ p.line = q.line ∧ p.column ≤ q.column⟩

instance : LT Position := ⟨fun p q => p.line < q.line ∨ p.line = q.line ∧ p.column < q.column⟩

variable {p q a b : Position}

theorem le_iff : p ≤ q ↔ p.line < q.line ∨ p.line = q.line ∧ p.column ≤ q.column := Iff.rfl

theorem lt_iff : p < q ↔ p.line < q.line ∨ p.line = q.line ∧ p.column < q.column := Iff.rfl

theorem before_iff : p.before q = true ↔ p ≤ q := by
  unfold before
  rw [Bool.or_eq_true, Bool.and_eq_true, decide_eq_true_eq, beq_iff_eq, decide_eq_true_eq]
  exact Iff.rfl

theorem le_refl (p : Position) : p ≤ p := .inr ⟨rfl, Nat.le_refl _⟩

theorem le_trans (h : p ≤ q) (h' : q ≤ a) : p ≤ a := by
  rw [le_iff] at *
  omega

theorem le_of_lt (h : p < q) : p ≤ q := by
  rw [le_iff]
  rw [lt_iff] at h
  omega

theorem lt_of_le_of_lt (h : p ≤ q) (h' : q < a) : p < a := by
  rw [le_iff] at h
  rw [lt_iff] at *
  omega

theorem lt_of_lt_of_le (h : p < q) (h' : q ≤ a) : p < a := by
  rw [le_iff] at h'
  rw [lt_iff] at *
  omega

theorem le_of_not_le (h : ¬ p ≤ q) : q ≤ p := by
  rw [le_iff] at *
  omega

theorem min_eq_left (h : p ≤ q) : p.min q = p := if_pos (before_iff.mpr h)

theorem max_eq_right (h : p ≤ q) : p.max q = q := if_pos (before_iff.mpr h)

theorem min_cases (p q : Position) : p ≤ q ∧ p.min q = p ∨ q ≤ p ∧ p.min q = q := by
  by_cases h : p ≤ q
  · exact .inl ⟨h, min_eq_left h⟩
  · exact .inr ⟨le_of_not_le h, if_neg (mt before_iff.mp h)⟩

theorem max_cases (p q : Position) : p ≤ q ∧ p.max q = q ∨ q ≤ p ∧ p.max q = p := by
  by_cases h : p ≤ q
  · exact .inl ⟨h, max_eq_right h⟩
  · exact .inr ⟨le_of_not_le h, if_neg (mt before_iff.mp h)⟩

/-- Each character moves the place on. -/
theorem lt_step (p : Position) (c : Char) : p < p.step c := by
  unfold step
  rw [lt_iff]
  split <;> dsimp only <;> omega

theorem le_advance (p : Position) (cs : List Char) : p ≤ p.advance cs := by
  induction cs generalizing p with
  | nil => exact le_refl p
  | cons c cs ih => exact le_trans (le_of_lt (lt_step p c)) (ih (p.step c))

theorem lt_advance (p : Position) {cs : List Char} (h : cs ≠ []) : p < p.advance cs := by
  cases cs with
  | nil => exact absurd rfl h
  | cons c cs => exact lt_of_lt_of_le (lt_step p c) (le_advance (p.step c) cs)

end Position

/-! ## Stretches -/

namespace Span

/-- A stretch that is not empty lies within another. -/
def Within : Span → Span → Prop
  | .written a b, .written p q => p ≤ a ∧ a < b ∧ b ≤ q
  | _, _ => False

/-- A stretch neither begins nor ends later than another. -/
def Precedes : Span → Span → Prop
  | .written a b, .written c d => a ≤ c ∧ b ≤ d
  | _, _ => False

variable {s t r : Span}

theorem exists_of_within (h : s.Within r) : ∃ a b p q, s = .written a b ∧ r = .written p q ∧
    p ≤ a ∧ a < b ∧ b ≤ q := by
  cases s <;> cases r
  · exact h.elim
  · exact h.elim
  · exact h.elim
  · exact ⟨_, _, _, _, rfl, rfl, h⟩

theorem Within.ne_generated (h : s.Within r) : s ≠ .generated := by
  rintro rfl
  obtain ⟨a, b, p, q, hs, -⟩ := exists_of_within h
  cases hs

/-- The stretch between two that lie within a third one does so too. -/
theorem Within.join (hs : s.Within r) (ht : t.Within r) : (s.join t).Within r := by
  obtain ⟨a, b, p, q, rfl, rfl, hpa, hab, hbq⟩ := exists_of_within hs
  obtain ⟨c, d, p, q, rfl, heq, hpc, hcd, hdq⟩ := exists_of_within ht
  cases heq
  show p ≤ a.min c ∧ a.min c < b.max d ∧ b.max d ≤ q
  rcases Position.min_cases a c with ⟨hac, hmin⟩ | ⟨hca, hmin⟩ <;>
    rcases Position.max_cases b d with ⟨hbd, hmax⟩ | ⟨hdb, hmax⟩ <;> rw [hmin, hmax]
  · exact ⟨hpa, Position.lt_of_lt_of_le hab hbd, hdq⟩
  · exact ⟨hpa, hab, hbq⟩
  · exact ⟨hpc, hcd, hdq⟩
  · exact ⟨hpc, Position.lt_of_lt_of_le hcd hdb, hbq⟩

theorem Within.first (h : s.Within r) : s.first.Within r := by
  obtain ⟨a, b, p, q, rfl, rfl, hpa, hab, hbq⟩ := exists_of_within h
  refine ⟨hpa, .inr ⟨rfl, Nat.lt_succ_self _⟩, Position.le_trans ?_ hbq⟩
  rw [Position.lt_iff] at hab
  rw [Position.le_iff]
  dsimp only
  omega

theorem Within.last (h : s.Within r) : s.last.Within r := by
  obtain ⟨a, b, p, q, rfl, rfl, hpa, hab, hbq⟩ := exists_of_within h
  rw [Position.lt_iff] at hab
  by_cases hcolumn : b.column = 0
  · rw [Span.last, if_pos hcolumn]
    exact ⟨hpa, hab, hbq⟩
  · rw [Span.last, if_neg hcolumn]
    refine ⟨Position.le_trans hpa ?_, ?_, hbq⟩
    · rw [Position.le_iff]
      dsimp only
      omega
    · rw [Position.lt_iff]
      dsimp only
      omega

theorem exists_of_precedes (h : s.Precedes t) :
    ∃ a b c d, s = .written a b ∧ t = .written c d ∧ a ≤ c ∧ b ≤ d := by
  cases s <;> cases t
  · exact h.elim
  · exact h.elim
  · exact h.elim
  · exact ⟨_, _, _, _, rfl, rfl, h⟩

/-- What lies within a stretch lies within each one around it. -/
theorem Within.between {u : Span} (h : u.Within t) (hs : s = t ∨ s.Precedes t)
    (hr : t = r ∨ t.Precedes r) : u.Within (s.join r) := by
  obtain ⟨a, b, c, d, rfl, rfl, hca, hab, hbd⟩ := exists_of_within h
  obtain ⟨p, q, rfl, hpc, hqd⟩ : ∃ p q, s = .written p q ∧ p ≤ c ∧ q ≤ d := by
    rcases hs with rfl | hs
    · exact ⟨c, d, rfl, Position.le_refl c, Position.le_refl d⟩
    · obtain ⟨p, q, c', d', hs, heq, hle⟩ := exists_of_precedes hs
      cases heq
      exact ⟨p, q, hs, hle⟩
  obtain ⟨p', q', rfl, hcp, hdq⟩ : ∃ p' q', r = .written p' q' ∧ c ≤ p' ∧ d ≤ q' := by
    rcases hr with rfl | hr
    · exact ⟨c, d, rfl, Position.le_refl c, Position.le_refl d⟩
    · obtain ⟨c', d', p', q', heq, hr, hle⟩ := exists_of_precedes hr
      cases heq
      exact ⟨p', q', hr, hle⟩
  have hmin : p.min p' = p := Position.min_eq_left (Position.le_trans hpc hcp)
  have hmax : q.max q' = q' := Position.max_eq_right (Position.le_trans hqd hdq)
  show p.min p' ≤ a ∧ a < b ∧ b ≤ q.max q'
  rw [hmin, hmax]
  exact ⟨Position.le_trans hpc hca, hab, Position.le_trans hbd hdq⟩

end Span

/-! ## Tokens in a row -/

namespace TokenTree

mutual

/-- The places of a token and of all that is in it. -/
def places : TokenTree → List Span
  | .word w => [w.span]
  | .mark _ _ s => [s]
  | .literal _ s => [s]
  | .group _ content s => s :: placesOf content

def placesOf : List TokenTree → List Span
  | [] => []
  | t :: rest => t.places ++ placesOf rest

end

/-- Tokens stand in a stretch, whatever is in them. -/
def StandIn (r : Span) (ts : List TokenTree) : Prop := ∀ t ∈ ts, t.span.Within r

/-- A token lies within a stretch, and so does all that is in it. -/
def LiesIn (r : Span) (t : TokenTree) : Prop := ∀ s ∈ t.places, s.Within r

mutual

/-- A token is not empty; a group holds its content, which is in a row. -/
def IsPlaced : TokenTree → Prop
  | .word w => w.span.Within w.span
  | .mark _ _ s => s.Within s
  | .literal _ s => s.Within s
  | .group _ content s => s.Within s ∧ (∀ t ∈ content, t.LiesIn s) ∧ InRow content

/-- Each of some tokens comes no later than those behind it. -/
def InRow : List TokenTree → Prop
  | [] => True
  | t :: rest => t.IsPlaced ∧ (∀ u ∈ rest, t.span.Precedes u.span) ∧ InRow rest

end

variable {ts us : List TokenTree} {r : Span}

theorem placesOf_append (ts us : List TokenTree) : placesOf (ts ++ us) = placesOf ts ++ placesOf us := by
  induction ts with
  | nil => rfl
  | cons t ts ih => rw [List.cons_append, placesOf, placesOf, ih, List.append_assoc]

theorem mem_placesOf {s : Span} : s ∈ placesOf ts ↔ ∃ t ∈ ts, s ∈ t.places := by
  induction ts with
  | nil => simp [placesOf]
  | cons t ts ih => simp [placesOf, ih]

theorem span_mem_places (t : TokenTree) : t.span ∈ t.places := by
  cases t <;> rw [places] <;> exact List.mem_cons_self

theorem LiesIn.span {t : TokenTree} (h : t.LiesIn r) : t.span.Within r := h _ (span_mem_places t)

theorem liesIn_group {d : Delimiter} {content : List TokenTree} {s : Span} :
    (group d content s).LiesIn r ↔ s.Within r ∧ ∀ t ∈ content, t.LiesIn r := by
  unfold LiesIn
  rw [places, List.forall_mem_cons]
  refine and_congr_right fun _ => ⟨fun h t ht s hs => h s (mem_placesOf.mpr ⟨t, ht, hs⟩), ?_⟩
  intro h s hs
  obtain ⟨t, ht, hs⟩ := mem_placesOf.mp hs
  exact h t ht s hs

theorem spanOf_eq {t u : TokenTree} (ht : ts.head? = some t) (hu : ts.getLast? = some u) :
    spanOf ts = t.span.join u.span := by
  obtain ⟨rest, rfl⟩ := List.head?_eq_some_iff.mp ht
  rw [spanOf, hu]
  rfl

theorem standIn_cons {t : TokenTree} : StandIn r (t :: ts) ↔ t.span.Within r ∧ StandIn r ts :=
  List.forall_mem_cons

theorem standIn_append : StandIn r (ts ++ us) ↔ StandIn r ts ∧ StandIn r us :=
  List.forall_mem_append

/-- The stretch from the first to the last of tokens that stand in a stretch lies within it. -/
theorem within_spanOf (hne : ts ≠ []) (h : StandIn r ts) : (spanOf ts).Within r := by
  rw [spanOf_eq (List.head?_eq_some_head hne) (List.getLast?_eq_some_getLast hne)]
  exact (h _ (List.head_mem hne)).join (h _ (List.getLast_mem hne))

theorem inRow_append :
    InRow (ts ++ us) ↔ InRow ts ∧ InRow us ∧ ∀ t ∈ ts, ∀ u ∈ us, t.span.Precedes u.span := by
  induction ts with
  | nil => simp [InRow]
  | cons t ts ih =>
    rw [List.cons_append, InRow, InRow, ih, List.forall_mem_append, List.forall_mem_cons]
    constructor
    · rintro ⟨ht, ⟨htts, htus⟩, hts, hus, hall⟩
      exact ⟨⟨ht, htts, hts⟩, hus, htus, hall⟩
    · rintro ⟨⟨ht, htts, hts⟩, hus, htus, hall⟩
      exact ⟨ht, ⟨htts, htus⟩, hts, hus, hall⟩

theorem InRow.isPlaced (h : InRow ts) {t : TokenTree} (ht : t ∈ ts) : t.IsPlaced := by
  obtain ⟨front, behind, rfl⟩ := List.append_of_mem ht
  have hbehind := (inRow_append.mp h).2.1
  rw [InRow] at hbehind
  exact hbehind.1

/-- All that is in a token lies within it. -/
theorem IsPlaced.liesIn {t : TokenTree} (h : t.IsPlaced) : t.LiesIn t.span := by
  cases t with
  | word w =>
    rw [LiesIn, places, List.forall_mem_singleton]
    exact h
  | mark c spacing s =>
    rw [LiesIn, places, List.forall_mem_singleton]
    exact h
  | literal text s =>
    rw [LiesIn, places, List.forall_mem_singleton]
    exact h
  | group d content s =>
    rw [IsPlaced] at h
    exact liesIn_group.mpr ⟨h.1, h.2.1⟩

/-- Tokens in a row lie, with all that is in them, between the first and the last of them. -/
theorem InRow.liesIn (h : InRow ts) : ∀ t ∈ ts, t.LiesIn (spanOf ts) := by
  intro v hv s hs
  have hne := List.ne_nil_of_mem hv
  rw [spanOf_eq (List.head?_eq_some_head hne) (List.getLast?_eq_some_getLast hne)]
  refine ((h.isPlaced hv).liesIn s hs).between ?_ ?_
  · obtain ⟨rest, hrest⟩ := List.head?_eq_some_iff.mp (List.head?_eq_some_head hne)
    rw [hrest, InRow] at h
    rw [hrest] at hv
    rcases List.mem_cons.mp hv with rfl | hv
    · exact .inl rfl
    · exact .inr (h.2.1 v hv)
  · obtain ⟨front, hfront⟩ := List.getLast?_eq_some_iff.mp (List.getLast?_eq_some_getLast hne)
    rw [hfront] at h hv
    rcases List.mem_append.mp hv with hv | hv
    · exact .inr ((inRow_append.mp h).2.2 v hv _ (List.mem_singleton_self _))
    · rw [List.mem_singleton.mp hv]
      exact .inl rfl

end TokenTree

end CommandBot
