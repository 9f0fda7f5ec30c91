import CommandBot.Proofs.LexedPieces
import CommandBot.Proofs.TokenPlaces

/-
  Where the lexer puts tokens. Each step takes some characters from the front, and what it finds
  stands where they do (`cases_of_next`). So the lexemes of a text are in order, and pairing their
  brackets puts what is between two of them into a group that reaches from one to the other:
  `inRow_of_tokens` says that the tokens of a text are in a row, and that each of them reaches from
  one place in the text to another.
-/

namespace CommandBot.Lexer

open Text

/-! ## What a step takes -/

/-- Some characters are taken from the front of a text. -/
def Advances (cs rest : List Char) : Prop := ∃ front, front ≠ [] ∧ cs = front ++ rest

theorem advances_cons {c : Char} {cs rest : List Char} (h : rest <:+ cs) : Advances (c :: cs) rest := by
  obtain ⟨front, rfl⟩ := h
  exact ⟨c :: front, List.cons_ne_nil c front, rfl⟩

theorem suffix_line (cs : List Char) : (line cs).2 <:+ cs := by
  fun_induction line cs with
  | case1 => exact List.suffix_refl _
  | case2 rest => exact List.suffix_refl _
  | case3 rest => exact List.suffix_cons _ _
  | case4 c rest _ _ ih => exact ih.trans (List.suffix_cons _ _)

theorem suffix_blockEnd {depth : Nat} {cs rest : List Char} (h : blockEnd depth cs = some rest) :
    rest <:+ cs := by
  fun_induction blockEnd depth cs with
  | case1 depth rest' ih => exact (ih h).trans ((List.suffix_cons _ _).trans (List.suffix_cons _ _))
  | case2 => cases h
  | case3 rest' =>
    cases h
    exact (List.suffix_cons _ _).trans (List.suffix_cons _ _)
  | case4 rest' d ih => exact (ih h).trans ((List.suffix_cons _ _).trans (List.suffix_cons _ _))
  | case5 depth c rest' _ _ ih => exact (ih h).trans (List.suffix_cons _ _)
  | case6 => cases h

/-- A block comment ends behind the characters that open it. -/
theorem advances_blockEnd {cs rest : List Char} (h : blockEnd 0 ('/' :: '*' :: cs) = some rest) :
    Advances ('/' :: '*' :: cs) rest :=
  advances_cons ((suffix_blockEnd (show blockEnd 1 cs = some rest from h)).trans (List.suffix_cons _ _))

theorem advances_separator {cs rest : List Char} (h : separator cs = some rest) : Advances cs rest := by
  have hline : ∀ cs : List Char, Advances ('/' :: '/' :: cs) (line cs).2 := fun cs =>
    advances_cons ((suffix_line cs).trans (List.suffix_cons _ _))
  unfold separator at h
  split at h
  · rename_i behind
    split at h
    · cases h
    · obtain ⟨-, h⟩ := Option.ite_none_right_eq_some.mp h
      cases h
      exact hline _
    · cases h
      exact hline _
  · rename_i behind
    split at h
    · cases h
      exact advances_cons ((List.suffix_cons _ _).trans ((List.suffix_cons _ _).trans
        (List.suffix_cons _ _)))
    · cases h
    · obtain ⟨-, h⟩ := Option.ite_none_right_eq_some.mp h
      exact advances_blockEnd h
    · exact advances_blockEnd h
  · obtain ⟨-, h⟩ := Option.ite_none_right_eq_some.mp h
    cases h
    exact advances_cons (List.suffix_refl _)
  · cases h

theorem advances_documentation {cs rest text : List Char} {inner : Bool}
    (h : documentation cs = some (inner, text, rest)) : Advances cs rest := by
  have hline : ∀ {a b c : Char} {cs : List Char}, line cs = (text, rest) →
      Advances (a :: b :: c :: cs) rest := by
    intro a b c cs heq
    have hsuffix := suffix_line cs
    rw [heq] at hsuffix
    exact advances_cons (hsuffix.trans ((List.suffix_cons _ _).trans (List.suffix_cons _ _)))
  unfold documentation at h
  obtain ⟨houtcome, -⟩ := Option.filter_eq_some_iff.mp h
  split at houtcome
  · exact hline (Prod.mk.inj (Option.some.inj houtcome)).2
  · obtain ⟨r, hr, heq⟩ := Option.map_eq_some_iff.mp houtcome
    cases heq
    exact advances_blockEnd hr
  · split at houtcome
    · cases houtcome
    · exact hline (Prod.mk.inj (Option.some.inj houtcome)).2
  · split at houtcome
    · cases houtcome
    · obtain ⟨r, hr, heq⟩ := Option.map_eq_some_iff.mp houtcome
      cases heq
      exact advances_blockEnd hr
  · cases houtcome

theorem advances_scan {cs rest : List Char} (h : Literal.scan cs = some rest) : Advances cs rest := by
  obtain ⟨t, rfl, htakes⟩ := Literal.exists_of_scan h
  refine ⟨t, ?_, rfl⟩
  rintro rfl
  have hnil : Literal.scan ([] ++ []) = some [] := htakes [] rfl
  cases hnil

theorem advances_word {cs rest : List Char} (h : word cs = some rest) : Advances cs rest := by
  have hany : anyWord cs = some rest := by
    unfold word at h
    split at h
    · cases h
    · exact h
  obtain ⟨t, rfl, ht⟩ := isWord_of_anyWord hany
  refine ⟨t, ?_, rfl⟩
  rintro rfl
  cases ht

/-! ## What a step finds -/

/-- A token stands from one place to another, and so does all that is in it. -/
def Fills (p q : Position) (t : TokenTree) : Prop := t.IsPlaced ∧ ∀ s ∈ t.places, s = .written p q

theorem Fills.span {p q : Position} {t : TokenTree} (h : Fills p q t) : t.span = .written p q :=
  h.2 _ (TokenTree.span_mem_places t)

section
variable {p q : Position}

theorem within_self (h : p < q) : (Span.written p q).Within (.written p q) :=
  ⟨Position.le_refl p, h, Position.le_refl q⟩

theorem precedes_self (p q : Position) : (Span.written p q).Precedes (.written p q) :=
  ⟨Position.le_refl p, Position.le_refl q⟩

theorem fills_word (h : p < q) (text : String) : Fills p q (.word ⟨text, .written p q⟩) := by
  refine ⟨within_self h, ?_⟩
  rw [TokenTree.places]
  exact List.forall_mem_singleton.mpr rfl

theorem fills_mark (h : p < q) (c : Char) (spacing : Spacing) :
    Fills p q (.mark c spacing (.written p q)) := by
  refine ⟨within_self h, ?_⟩
  rw [TokenTree.places]
  exact List.forall_mem_singleton.mpr rfl

theorem fills_literal (h : p < q) (text : String) : Fills p q (.literal text (.written p q)) := by
  refine ⟨within_self h, ?_⟩
  rw [TokenTree.places]
  exact List.forall_mem_singleton.mpr rfl

/-- Tokens that all stand in one place are in a row. -/
theorem inRow_of_fills {ts : List TokenTree} (h : ∀ t ∈ ts, Fills p q t) : TokenTree.InRow ts := by
  induction ts with
  | nil => trivial
  | cons t ts ih =>
    rw [List.forall_mem_cons] at h
    refine ⟨h.1.1, fun u hu => ?_, ih h.2⟩
    rw [h.1.span, (h.2 u hu).span]
    exact precedes_self p q

theorem places_of_fills {ts : List TokenTree} (h : ∀ t ∈ ts, Fills p q t) :
    ∀ s ∈ TokenTree.placesOf ts, s = .written p q := by
  intro s hs
  obtain ⟨t, ht, hs⟩ := TokenTree.mem_placesOf.mp hs
  exact (h t ht).2 s hs

theorem fills_group (h : p < q) (d : Delimiter) {content : List TokenTree}
    (hcontent : ∀ t ∈ content, Fills p q t) : Fills p q (.group d content (.written p q)) := by
  have hplaces := places_of_fills hcontent
  refine ⟨⟨within_self h, fun t ht s hs => ?_, inRow_of_fills hcontent⟩, ?_⟩
  · rw [(hcontent t ht).2 s hs]
    exact within_self h
  · rw [TokenTree.places]
    exact List.forall_mem_cons.mpr ⟨rfl, hplaces⟩

/-- A documentation comment stands where the attribute does that it stands for. -/
theorem fills_documentation (h : p < q) (inner : Bool) (text : List Char) :
    ∀ t ∈ documentationTrees inner text (.written p q), Fills p q t := by
  have hmark := fun c => fills_mark h c .alone
  have hgroup : Fills p q (.group .bracket [.word ⟨"doc", .written p q⟩, .mark '=' .alone
      (.written p q), .literal (literal (String.ofList text)) (.written p q)] (.written p q)) := by
    refine fills_group h _ ?_
    simp only [List.forall_mem_cons, List.not_mem_nil, false_imp_iff, implies_true, and_true]
    exact ⟨fills_word h _, hmark '=', fills_literal h _⟩
  unfold documentationTrees
  cases inner
  · simp only [Bool.false_eq_true, if_false, List.nil_append, List.cons_append,
      List.forall_mem_cons, List.not_mem_nil, false_imp_iff, implies_true, and_true]
    exact ⟨hmark '#', hgroup⟩
  · simp only [if_true, List.nil_append, List.cons_append,
      List.forall_mem_cons, List.not_mem_nil, false_imp_iff, implies_true, and_true]
    exact ⟨hmark '#', hmark '!', hgroup⟩

/-- A step takes some characters and finds, where they stand, some tokens or one bracket. -/
theorem cases_of_next {cs rest : List Char} {found : List Lexeme}
    (h : next p cs = some (found, rest)) :
    ∃ front, front ≠ [] ∧ cs = front ++ rest ∧
      ((∃ ts : List TokenTree, found = ts.map .leaf ∧ ∀ t ∈ ts, Fills p (p.advance front) t) ∨
        (∃ d, found = [.opening d p]) ∨ ∃ d, found = [.closing d (p.advance front)]) := by
  have hone : ∀ {front : List Char} {t : TokenTree}, Fills p (p.advance front) t →
      ∃ ts : List TokenTree, [Lexeme.leaf t] = ts.map .leaf ∧
        ∀ t ∈ ts, Fills p (p.advance front) t :=
    fun ht => ⟨[_], rfl, List.forall_mem_singleton.mpr ht⟩
  unfold next at h
  split at h
  · rename_i behind hsep
    cases h
    obtain ⟨front, hne, rfl⟩ := advances_separator hsep
    exact ⟨front, hne, rfl, .inl ⟨[], rfl, fun t ht => absurd ht List.not_mem_nil⟩⟩
  dsimp only at h
  split at h
  · rename_i inner text behind hdoc
    cases h
    obtain ⟨front, hne, rfl⟩ := advances_documentation hdoc
    rw [upTo_append]
    exact ⟨front, hne, rfl, .inl ⟨_, rfl, fills_documentation (Position.lt_advance p hne) _ _⟩⟩
  split at h
  · rename_i behind hscan
    cases h
    obtain ⟨front, hne, rfl⟩ := advances_scan hscan
    rw [upTo_append]
    exact ⟨front, hne, rfl, .inl (hone (fills_literal (Position.lt_advance p hne) _))⟩
  split at h
  · cases h
  · rename_i c cs hsep hdoc hscan
    have hc : p < p.advance [c] := Position.lt_step p c
    split at h
    · cases h
      exact ⟨[c], List.cons_ne_nil c [], rfl, .inr (.inl ⟨_, rfl⟩)⟩
    · cases h
      exact ⟨[c], List.cons_ne_nil c [], rfl, .inr (.inr ⟨_, rfl⟩)⟩
    · cases h
      have hupTo := upTo_append [c] rest
      rw [List.singleton_append] at hupTo
      rw [hupTo]
      exact ⟨[c], List.cons_ne_nil c [], rfl, .inl (hone (fills_mark hc _ _))⟩
    · rename_i after hword _ _ _
      cases h
      obtain ⟨front, hne, heq⟩ := advances_word hword
      rw [heq, upTo_append]
      exact ⟨front, hne, rfl, .inl (hone (fills_word (Position.lt_advance p hne) _))⟩
    · cases h

/-! ## Lexemes in order -/

/-- The place behind which nothing is, and the one before which nothing ends, move on from lexeme
to lexeme. -/
def InOrder : Position → Position → List Lexeme → Prop
  | _, _, [] => True
  | x, y, .leaf t :: rest =>
    t.IsPlaced ∧ ∃ a b, t.span = .written a b ∧ x ≤ a ∧ y ≤ b ∧ InOrder a b rest
  | x, y, .opening _ at_ :: rest => x ≤ at_ ∧ y ≤ at_ ∧ InOrder at_ at_ rest
  | x, y, .closing _ past :: rest => x < past ∧ y < past ∧ InOrder past past rest

theorem InOrder.of_le {x y x' y' : Position} {ls : List Lexeme} (h : InOrder x y ls) (hx : x' ≤ x)
    (hy : y' ≤ y) : InOrder x' y' ls := by
  cases ls with
  | nil => trivial
  | cons l rest =>
    cases l with
    | leaf t =>
      obtain ⟨ht, a, b, hspan, hxa, hyb, hrest⟩ := h
      exact ⟨ht, a, b, hspan, Position.le_trans hx hxa, Position.le_trans hy hyb, hrest⟩
    | opening d at_ =>
      obtain ⟨hxat, hyat, hrest⟩ := h
      exact ⟨Position.le_trans hx hxat, Position.le_trans hy hyat, hrest⟩
    | closing d past =>
      obtain ⟨hxpast, hypast, hrest⟩ := h
      exact ⟨Position.lt_of_le_of_lt hx hxpast, Position.lt_of_le_of_lt hy hypast, hrest⟩

/-- Tokens that stand in one place go before what comes from its end on. -/
theorem inOrder_leaves {ts : List TokenTree} (h : ∀ t ∈ ts, Fills p q t) {y : Position}
    (hpq : p ≤ q) (hy : y ≤ q) {ls : List Lexeme} (hls : InOrder q q ls) :
    InOrder p y (ts.map .leaf ++ ls) := by
  induction ts generalizing y with
  | nil => exact hls.of_le hpq hy
  | cons t ts ih =>
    rw [List.forall_mem_cons] at h
    exact ⟨h.1.1, p, q, h.1.span, Position.le_refl p, hy, ih h.2 (Position.le_refl q)⟩

theorem inOrder_of_lexemesFrom {n : Nat} {cs : List Char} {ls : List Lexeme}
    (h : lexemesFrom n p cs = some ls) : InOrder p p ls := by
  induction n generalizing p cs ls with
  | zero =>
    cases cs with
    | nil =>
      cases h
      trivial
    | cons c cs => cases h
  | succ n ih =>
    cases cs with
    | nil =>
      cases h
      trivial
    | cons c cs =>
      rw [lexemesFrom] at h
      split at h
      · cases h
      · rename_i found rest hnext
        obtain ⟨ls', hrest, rfl⟩ := Option.map_eq_some_iff.mp h
        obtain ⟨front, hne, heq, hfound⟩ := cases_of_next hnext
        rw [heq, upTo_append] at hrest
        have hlater := ih hrest
        have hlt := Position.lt_advance p hne
        rcases hfound with ⟨ts, rfl, hts⟩ | ⟨d, rfl⟩ | ⟨d, rfl⟩
        · exact inOrder_leaves hts (Position.le_of_lt hlt) (Position.le_of_lt hlt) hlater
        · refine ⟨Position.le_refl p, Position.le_refl p, ?_⟩
          exact hlater.of_le (Position.le_of_lt hlt) (Position.le_of_lt hlt)
        · exact ⟨hlt, hlt, hlater⟩
      · exact List.cons_ne_nil c cs

/-! ## Pairing brackets -/

/-- The tokens of a group so far, the last one first: none begins before the group or behind one
place, and none ends behind another. -/
structure Level (lo x y : Position) (before : List TokenTree) : Prop where
  lo_le : lo ≤ x
  row : TokenTree.InRow before.reverse
  bounds : ∀ t ∈ before, ∃ a b, t.span = .written a b ∧ lo ≤ a ∧ a ≤ x ∧ b ≤ y

theorem level_nil {lo x : Position} (h : lo ≤ x) (y : Position) : Level lo x y [] :=
  ⟨h, trivial, fun _ ht => absurd ht List.not_mem_nil⟩

theorem Level.mono {lo x y x' y' : Position} {before : List TokenTree} (h : Level lo x y before)
    (hx : x ≤ x') (hy : y ≤ y') : Level lo x' y' before where
  lo_le := Position.le_trans h.lo_le hx
  row := h.row
  bounds := by
    intro t ht
    obtain ⟨a, b, hspan, hlo, hax, hby⟩ := h.bounds t ht
    exact ⟨a, b, hspan, hlo, Position.le_trans hax hx, Position.le_trans hby hy⟩

/-- One more token, which begins and ends no earlier than any before. -/
theorem Level.push {lo x y a b : Position} {before : List TokenTree} {t : TokenTree}
    (h : Level lo x y before) (ht : t.IsPlaced) (hspan : t.span = .written a b) (hxa : x ≤ a)
    (hyb : y ≤ b) : Level lo a b (t :: before) where
  lo_le := Position.le_trans h.lo_le hxa
  row := by
    rw [List.reverse_cons, TokenTree.inRow_append]
    refine ⟨h.row, ⟨ht, fun u hu => absurd hu List.not_mem_nil, trivial⟩, ?_⟩
    intro u hu v hv
    obtain ⟨c, d, hu, -, hcx, hdy⟩ := h.bounds u (List.mem_reverse.mp hu)
    rw [List.mem_singleton.mp hv, hspan, hu]
    exact ⟨Position.le_trans hcx hxa, Position.le_trans hdy hyb⟩
  bounds := by
    refine List.forall_mem_cons.mpr ⟨⟨a, b, hspan, Position.le_trans h.lo_le hxa,
      Position.le_refl a, Position.le_refl b⟩, fun u hu => ?_⟩
    obtain ⟨c, d, hu, hlo, hcx, hdy⟩ := h.bounds u hu
    exact ⟨c, d, hu, hlo, Position.le_trans hcx hxa, Position.le_trans hdy hyb⟩

/-- The tokens so far are what a group holds that is closed now. -/
theorem Level.isPlaced_group {lo x y past : Position} {before : List TokenTree}
    (h : Level lo x y before) (hx : x < past) (hy : y < past) (d : Delimiter) :
    (TokenTree.group d before.reverse (.written lo past)).IsPlaced := by
  refine ⟨within_self (Position.lt_of_le_of_lt h.lo_le hx), fun t ht s hs => ?_, h.row⟩
  have hwithin := (h.row.isPlaced ht).liesIn s hs
  obtain ⟨a, b, hspan, hlo, -, hby⟩ := h.bounds t (List.mem_reverse.mp ht)
  rw [hspan] at hwithin
  obtain ⟨c, e, a', b', rfl, heq, hac, hce, heb⟩ := Span.exists_of_within hwithin
  cases heq
  exact ⟨Position.le_trans hlo hac, hce,
    Position.le_trans heb (Position.le_trans hby (Position.le_of_lt hy))⟩

/-- The tokens so far, and those around each of the groups that are open. -/
def Stacked (x y : Position) : Open → List TokenTree → Prop
  | [], before => Level .start x y before
  | (_, at_, outside) :: stack, before => Level at_ x y before ∧ Stacked at_ at_ stack outside

theorem Stacked.mono {x y x' y' : Position} {stack : Open} {before : List TokenTree}
    (h : Stacked x y stack before) (hx : x ≤ x') (hy : y ≤ y') : Stacked x' y' stack before := by
  cases stack with
  | nil => exact Level.mono h hx hy
  | cons frame stack => exact ⟨h.1.mono hx hy, h.2⟩

theorem Stacked.push {x y a b : Position} {stack : Open} {before : List TokenTree} {t : TokenTree}
    (h : Stacked x y stack before) (ht : t.IsPlaced) (hspan : t.span = .written a b) (hxa : x ≤ a)
    (hyb : y ≤ b) : Stacked a b stack (t :: before) := by
  cases stack with
  | nil => exact Level.push h ht hspan hxa hyb
  | cons frame stack => exact ⟨h.1.push ht hspan hxa hyb, h.2⟩

theorem inRow_of_nest {x y : Position} {stack : Open} {before ts : List TokenTree}
    {ls : List Lexeme} (hls : InOrder x y ls) (h : Stacked x y stack before)
    (hnest : nest stack before ls = some ts) : TokenTree.InRow ts := by
  induction ls generalizing x y stack before with
  | nil =>
    cases stack with
    | nil =>
      cases hnest
      exact h.row
    | cons frame stack => cases hnest
  | cons l rest ih =>
    cases l with
    | leaf t =>
      obtain ⟨ht, a, b, hspan, hxa, hyb, hrest⟩ := hls
      rw [nest] at hnest
      exact ih hrest (h.push ht hspan hxa hyb) hnest
    | opening d at_ =>
      obtain ⟨hx, hy, hrest⟩ := hls
      rw [nest] at hnest
      have hinside : Stacked at_ at_ ((d, at_, before) :: stack) [] :=
        ⟨level_nil (Position.le_refl at_) at_, h.mono hx hy⟩
      exact ih hrest hinside hnest
    | closing d past =>
      obtain ⟨hx, hy, hrest⟩ := hls
      cases stack with
      | nil => cases hnest
      | cons frame stack =>
        obtain ⟨e, at_, outside⟩ := frame
        obtain ⟨hlevel, houtside⟩ := h
        rw [nest] at hnest
        obtain ⟨-, hnest⟩ := Option.ite_none_right_eq_some.mp hnest
        have hat : at_ ≤ past := Position.le_of_lt (Position.lt_of_le_of_lt hlevel.lo_le hx)
        have hgroup := houtside.push (hlevel.isPlaced_group hx hy e) rfl (Position.le_refl at_) hat
        exact ih hrest (hgroup.mono hat (Position.le_refl past)) hnest

/-! ## The text as a whole -/

/-- A place in a text, behind the characters that it begins with. -/
def IsPlaceIn (cs : List Char) (p : Position) : Prop :=
  ∃ front, front <+: cs ∧ p = Position.start.advance front

/-- A stretch from one place in a text to another. -/
def JoinsPlaces (cs : List Char) (s : Span) : Prop :=
  ∃ a b, s = .written a b ∧ IsPlaceIn cs a ∧ IsPlaceIn cs b

/-- A lexeme whose places are in a text. -/
def StandsIn (cs : List Char) : Lexeme → Prop
  | .leaf t => ∀ s ∈ t.places, JoinsPlaces cs s
  | .opening _ at_ => IsPlaceIn cs at_
  | .closing _ past => IsPlaceIn cs past

theorem standsIn_of_lexemesFrom {n : Nat} {text before cs : List Char} {ls : List Lexeme}
    (htext : text = before ++ cs) (h : lexemesFrom n (Position.start.advance before) cs = some ls) :
    ∀ l ∈ ls, StandsIn text l := by
  induction n generalizing before cs ls with
  | zero =>
    cases cs with
    | nil =>
      cases h
      exact fun l hl => absurd hl List.not_mem_nil
    | cons c cs => cases h
  | succ n ih =>
    cases cs with
    | nil =>
      cases h
      exact fun l hl => absurd hl List.not_mem_nil
    | cons c cs =>
      rw [lexemesFrom] at h
      split at h
      · cases h
      · rename_i found rest hnext
        obtain ⟨ls', hrest, rfl⟩ := Option.map_eq_some_iff.mp h
        obtain ⟨front, -, heq, hfound⟩ := cases_of_next hnext
        rw [heq, upTo_append, ← Position.advance_append] at hrest
        rw [← Position.advance_append] at hfound
        rw [heq, ← List.append_assoc] at htext
        have hp : IsPlaceIn text (Position.start.advance before) :=
          ⟨before, ⟨front ++ rest, by rw [htext, List.append_assoc]⟩, rfl⟩
        have hq : IsPlaceIn text (Position.start.advance (before ++ front)) :=
          ⟨before ++ front, ⟨rest, htext.symm⟩, rfl⟩
        refine List.forall_mem_append.mpr ⟨?_, ih htext hrest⟩
        rcases hfound with ⟨ts, rfl, hts⟩ | ⟨d, rfl⟩ | ⟨d, rfl⟩
        · refine List.forall_mem_map.mpr fun t ht s hs => ?_
          exact ⟨_, _, (hts t ht).2 s hs, hp, hq⟩
        · exact List.forall_mem_singleton.mpr hp
        · exact List.forall_mem_singleton.mpr hq
      · exact List.cons_ne_nil c cs

theorem joinsPlaces_of_nest {text : List Char} {stack : Open} {before ts : List TokenTree}
    {ls : List Lexeme} (hls : ∀ l ∈ ls, StandsIn text l)
    (hbefore : ∀ s ∈ TokenTree.placesOf before, JoinsPlaces text s)
    (hstack : ∀ frame ∈ stack, IsPlaceIn text frame.2.1 ∧
      ∀ s ∈ TokenTree.placesOf frame.2.2, JoinsPlaces text s)
    (hnest : nest stack before ls = some ts) :
    ∀ s ∈ TokenTree.placesOf ts, JoinsPlaces text s := by
  have hreverse : ∀ {us : List TokenTree}, (∀ s ∈ TokenTree.placesOf us, JoinsPlaces text s) →
      ∀ s ∈ TokenTree.placesOf us.reverse, JoinsPlaces text s := by
    intro us hus s hs
    obtain ⟨t, ht, hs⟩ := TokenTree.mem_placesOf.mp hs
    exact hus s (TokenTree.mem_placesOf.mpr ⟨t, List.mem_reverse.mp ht, hs⟩)
  have hpush : ∀ {t : TokenTree} {us : List TokenTree}, (∀ s ∈ t.places, JoinsPlaces text s) →
      (∀ s ∈ TokenTree.placesOf us, JoinsPlaces text s) →
        ∀ s ∈ TokenTree.placesOf (t :: us), JoinsPlaces text s := by
    intro t us ht hus
    rw [TokenTree.placesOf]
    exact List.forall_mem_append.mpr ⟨ht, hus⟩
  induction ls generalizing stack before with
  | nil =>
    cases stack with
    | nil =>
      cases hnest
      exact hreverse hbefore
    | cons frame stack => cases hnest
  | cons l rest ih =>
    obtain ⟨hl, hrest⟩ := List.forall_mem_cons.mp hls
    cases l with
    | leaf t =>
      rw [nest] at hnest
      exact ih hrest (hpush hl hbefore) hstack hnest
    | opening d at_ =>
      rw [nest] at hnest
      exact ih hrest (fun s hs => absurd hs List.not_mem_nil)
        ((List.forall_mem_cons (a := (d, at_, before))).mpr ⟨⟨hl, hbefore⟩, hstack⟩) hnest
    | closing d past =>
      cases stack with
      | nil => cases hnest
      | cons frame stack =>
        obtain ⟨e, at_, outside⟩ := frame
        obtain ⟨⟨hat, houtside⟩, hstack⟩ := List.forall_mem_cons.mp hstack
        rw [nest] at hnest
        obtain ⟨-, hnest⟩ := Option.ite_none_right_eq_some.mp hnest
        refine ih hrest (hpush ?_ houtside) hstack hnest
        rw [TokenTree.places]
        exact List.forall_mem_cons.mpr ⟨⟨at_, past, rfl, hat, hl⟩, hreverse hbefore⟩

/-- The tokens of a text are in a row, and each reaches from one place in the text to another. -/
theorem inRow_of_tokens {cs : List Char} {ts : List TokenTree} (h : tokens cs = some ts) :
    TokenTree.InRow ts ∧ ∀ s ∈ TokenTree.placesOf ts, JoinsPlaces cs s := by
  obtain ⟨ls, hls, hnest⟩ := Option.bind_eq_some_iff.mp h
  obtain ⟨n, before, rest, rfl, hfrom⟩ : ∃ n before rest, cs = before ++ rest ∧
      lexemesFrom n (Position.start.advance before) rest = some ls := by
    unfold lexemes at hls
    split at hls
    · rename_i rest
      exact ⟨_, ['\uFEFF'], rest, rfl, hls⟩
    · exact ⟨_, [], cs, rfl, hls⟩
  have hstart : Stacked (Position.start.advance before) (Position.start.advance before) [] [] :=
    level_nil (Position.le_advance _ _) _
  refine ⟨inRow_of_nest (inOrder_of_lexemesFrom hfrom) hstart hnest, ?_⟩
  exact joinsPlaces_of_nest (standsIn_of_lexemesFrom rfl hfrom)
    (fun s hs => absurd hs List.not_mem_nil) (fun frame hframe => absurd hframe List.not_mem_nil) hnest

end

end CommandBot.Lexer
