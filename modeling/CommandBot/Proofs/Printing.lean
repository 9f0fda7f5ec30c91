import CommandBot.Proofs.Pieces
import CommandBot.Proofs.Taking

/-
  What grammars print. A grammar is `Tidy` when nothing it prints is joint to what another grammar
  prints: it then prints readable pieces, if it reads readable ones (`keeps_read`). Members of an
  impl block that stay as written are the exception, and `readable_members` is about them.
-/

namespace CommandBot.Grammar

open TokenTree Piece

/-! ## What a reader keeps -/

/-- A reader takes tokens from the front and prints readable pieces, if it is given such. -/
def Keeps (r : Reader) : Prop :=
  ∀ ts p rest, r ts = some (p, rest) → Readable (piecesOf ts) →
    Readable (piecesOf p) ∧ rest <:+ ts

theorem readable_of_suffix {s t : List TokenTree} (h : s <:+ t) (ht : Readable (piecesOf t)) :
    Readable (piecesOf s) := by
  obtain ⟨u, rfl⟩ := h
  rw [piecesOf_append] at ht
  exact ht.right

theorem readable_append {s t : List TokenTree} (hs : Readable (piecesOf s))
    (ht : Readable (piecesOf t)) : Readable (piecesOf (s ++ t)) := by
  rw [piecesOf_append]
  exact hs.append ht

theorem readable_flatMap {α : Type} {f : α → List TokenTree} {as : List α}
    (h : ∀ a ∈ as, Readable (piecesOf (f a))) : Readable (piecesOf (as.flatMap f)) := by
  induction as with
  | nil => rw [List.flatMap_nil, piecesOf_nil]; exact trivial
  | cons a as ih =>
    rw [List.flatMap_cons]
    exact readable_append (h a (List.mem_cons_self ..))
      (ih fun b hb => h b (List.mem_cons_of_mem _ hb))

theorem readable_nil : Readable (piecesOf []) := by
  rw [piecesOf_nil]
  exact trivial

theorem readable_alone {c : Char} (hc : Lexer.isMarkSign c = true) (hne : c ≠ '\'') (s : Span) :
    Readable (piecesOf [.mark c .alone s]) := by
  rw [piecesOf_cons, pieces_mark, piecesOf_nil]
  exact ⟨hc, .alone hne _, trivial⟩

/-- Only what is no mark stands before a closing bracket. -/
theorem readable_of_closing {ps qs : List Piece} {d : Delimiter}
    (h : Readable (ps ++ .closing d :: qs)) : Readable ps := by
  induction ps with
  | nil => exact trivial
  | cons p ps ih =>
    obtain ⟨hsound, hmeets, hrest⟩ := h
    refine ⟨hsound, ?_, ih hrest⟩
    cases ps with
    | nil =>
      have hmeets : p.Meets (some (.closing d)) := hmeets
      cases hmeets with
      | word text => exact .word text _
      | literal text => exact .literal text _
      | opening d => exact .opening d _
      | closing d => exact .closing d _
      | alone hc => exact .alone hc _
    | cons q ps => exact hmeets

theorem readable_group {d : Delimiter} {content : List TokenTree} {s : Span}
    {rest : List TokenTree} (h : Readable (piecesOf (.group d content s :: rest))) :
    Readable (piecesOf content) := by
  rw [piecesOf_cons, pieces_group, List.cons_append, List.append_assoc] at h
  exact readable_of_closing h.2.2

theorem readable_of_group {d : Delimiter} {content : List TokenTree} (s : Span)
    (h : Readable (piecesOf content)) : Readable (piecesOf [.group d content s]) := by
  rw [piecesOf_cons, pieces_group, piecesOf_nil, List.append_nil]
  exact ⟨trivial, .opening d _, h.append ⟨trivial, .closing d _, trivial⟩⟩

/-! ## Single tokens -/

/-- An operator begins with the sign that it prints first. -/
theorem head_of_readOperator {signs : List Char} {ts p rest : List TokenTree}
    (h : readOperator signs ts = some (p, rest)) (hne : signs ≠ []) :
    ∃ c spacing spacing' s ts' p', ts = .mark c spacing s :: ts' ∧ p = .mark c spacing' s :: p' := by
  fun_cases readOperator signs ts with
  | case1 => exact absurd rfl hne
  | case2 d spacing s rest' =>
    rw [readOperator, if_pos rfl] at h
    cases h
    exact ⟨d, spacing, .alone, s, _, _, rfl, rfl⟩
  | case4 cs d s rest' hcs =>
    rw [readOperator, if_pos rfl] at h
    · obtain ⟨q, -, heq⟩ := Option.map_eq_some_iff.mp h
      cases heq
      exact ⟨d, .joint, .joint, s, _, _, rfl, rfl⟩
    · exact hcs
  | case3 c d spacing s rest' hc =>
    rw [readOperator, if_neg hc] at h
    cases h
  | case5 c cs d s rest' hcs hc =>
    rw [readOperator, if_neg hc] at h
    · cases h
    · exact hcs
  | case6 _ _ hnil hone hmore =>
    rw [readOperator] at h
    · cases h
    · exact hnil
    · exact hone
    · exact hmore

/-- An operator prints its signs, the last one alone. -/
theorem keeps_readOperator {signs : List Char} (h : signs.contains '\'' = false) :
    Keeps (readOperator signs) := by
  intro ts p rest hread hts
  fun_induction readOperator signs ts generalizing p rest with
  | case1 ts =>
    cases hread
    exact ⟨readable_nil, List.suffix_refl _⟩
  | case2 d spacing s rest' =>
    cases hread
    rw [piecesOf_cons, pieces_mark] at hts
    refine ⟨readable_alone hts.1 ?_ s, List.suffix_cons _ _⟩
    rintro rfl
    exact absurd h (by decide)
  | case4 cs d s rest' hcs ih =>
    obtain ⟨q, hq, heq⟩ := Option.map_eq_some_iff.mp hread
    cases heq
    rw [piecesOf_cons, pieces_mark] at hts
    rw [List.contains_cons, Bool.or_eq_false_iff, beq_eq_false_iff_ne] at h
    have hne : d ≠ '\'' := fun hd => h.1 hd.symm
    obtain ⟨hp, hsuffix⟩ := ih h.2 q.1 q.2 hq hts.2.2
    refine ⟨?_, hsuffix.trans (List.suffix_cons _ _)⟩
    obtain ⟨e, spacing, spacing', s', ts', p', rfl, hq1⟩ := head_of_readOperator hq hcs
    rw [piecesOf_cons, pieces_mark]
    refine ⟨hts.1, ?_, hp⟩
    have hmeets : Meets (.mark d .joint) (some (.mark e spacing)) := by
      have := hts.2.1
      rwa [piecesOf_cons, pieces_mark] at this
    rw [hq1, piecesOf_cons, pieces_mark]
    cases hmeets with
    | sign hd hcomment => exact .sign hd hcomment
  | _ => cases hread

theorem keeps_readLifetime : Keeps readLifetime := by
  intro ts p rest hread hts
  fun_cases readLifetime ts with
  | case1 s w rest' =>
    rw [readLifetime] at hread
    cases hread
    rw [piecesOf_cons, pieces_mark, piecesOf_cons, pieces_word] at hts
    rw [piecesOf_cons, pieces_mark, piecesOf_cons, pieces_word, piecesOf_nil]
    refine ⟨⟨hts.1, .lifetime _, hts.2.2.1, .word _ _, trivial⟩, ?_⟩
    exact (List.suffix_cons _ _).trans (List.suffix_cons _ _)
  | case2 _ hno =>
    rw [readLifetime] at hread
    · cases hread
    · exact hno

/-! ## Repetition -/

theorem keeps_loop {test : Ahead} {body : Reader} (hbody : Keeps body) (n : Nat) :
    Keeps (loop test body n) := by
  induction n with
  | zero =>
    intro ts p rest hread hts
    cases hread
    exact ⟨readable_nil, List.suffix_refl _⟩
  | succ n ih =>
    intro ts p rest hread hts
    rw [loop_succ] at hread
    split at hread
    · obtain ⟨r, hr, hmap⟩ := Option.bind_eq_some_iff.mp hread
      obtain ⟨q, hq, heq⟩ := Option.map_eq_some_iff.mp hmap
      cases heq
      obtain ⟨hp, hsuffix⟩ := hbody ts r.1 r.2 hr hts
      obtain ⟨hp', hsuffix'⟩ := ih r.2 q.1 q.2 hq (readable_of_suffix hsuffix hts)
      exact ⟨readable_append hp hp', hsuffix'.trans hsuffix⟩
    · cases hread
      exact ⟨readable_nil, List.suffix_refl _⟩

/-! ## Type parameters -/

theorem keeps_readParameters {one : Reader} (hone : Keeps one) {n : Nat} {ts rest : List TokenTree}
    {ps : List (List TokenTree × List TokenTree)} (hread : readParameters one n ts = some (ps, rest))
    (hts : Readable (piecesOf ts)) :
    (∀ p ∈ ps, Readable (piecesOf p.1) ∧ Readable (piecesOf p.2)) ∧ rest <:+ ts := by
  fun_induction readParameters one n ts generalizing ps rest with
  | case1 => cases hread
  | case2 =>
    cases hread
    exact ⟨fun p hp => (nomatch hp), List.suffix_refl _⟩
  | case3 n ts hno ih =>
    obtain ⟨r, hr, hread⟩ := Option.bind_eq_some_iff.mp hread
    obtain ⟨hp, hsuffix⟩ := hone ts r.1 r.2 hr hts
    have hr2 := readable_of_suffix hsuffix hts
    split at hread
    · rename_i spacing s rest' heq
      obtain ⟨q, hq, heq'⟩ := Option.map_eq_some_iff.mp hread
      cases heq'
      rw [heq] at hr2 hsuffix
      obtain ⟨hall, hsuffix'⟩ := ih rest' hq
        (readable_of_suffix (List.suffix_cons _ _) hr2)
      refine ⟨?_, (hsuffix'.trans (List.suffix_cons _ _)).trans hsuffix⟩
      intro p hmem
      rcases List.mem_cons.mp hmem with rfl | hmem
      · exact ⟨hp, readable_alone (by decide) (by decide) s⟩
      · exact hall p hmem
    · cases hread
      refine ⟨?_, hsuffix⟩
      intro p hmem
      rw [List.mem_singleton] at hmem
      subst hmem
      exact ⟨hp, readable_nil⟩
    · cases hread

theorem readable_arrange {ps : List (List TokenTree × List TokenTree)}
    (h : ∀ p ∈ ps, Readable (piecesOf p.1) ∧ Readable (piecesOf p.2)) :
    Readable (piecesOf (arrange ps)) := by
  have hone : ∀ p ∈ ps, Readable (piecesOf (p.1 ++ p.2)) :=
    fun p hp => readable_append (h p hp).1 (h p hp).2
  unfold arrange
  refine readable_append (readable_append ?_ ?_) ?_
  · exact readable_flatMap fun p hp => hone p (List.mem_filter.mp hp).1
  · split
    · exact readable_alone (by decide) (by decide) _
    · exact readable_nil
  · exact readable_flatMap fun p hp => hone p (List.mem_filter.mp hp).1

theorem keeps_readGenerics {one : Reader} (hone : Keeps one) : Keeps (readGenerics one) := by
  intro ts p rest hread hts
  unfold readGenerics at hread
  split at hread
  · rename_i spacing s rest'
    split at hread
    · rename_i ps spacing' e rest'' hps
      obtain ⟨hall, hsuffix⟩ := keeps_readParameters hone hps
        (readable_of_suffix (List.suffix_cons _ _) hts)
      have hrest : rest'' <:+ .mark '<' spacing s :: rest' :=
        ((List.suffix_cons _ _).trans hsuffix).trans (List.suffix_cons _ _)
      split at hread
      · cases hread
        exact ⟨readable_nil, hrest⟩
      · cases hread
        refine ⟨readable_append (readable_append ?_ (readable_arrange hall)) ?_, hrest⟩
        · exact readable_alone (by decide) (by decide) s
        · exact readable_alone (by decide) (by decide) e
    · cases hread
  · cases hread
    exact ⟨readable_nil, List.suffix_refl _⟩

/-! ## The first piece -/

/-- Where a piece meets the one list, it meets the other. -/
def MeetsToo (ts p : List TokenTree) : Prop :=
  ∀ q : Piece, q.Meets (piecesOf ts).head? → q.Meets (piecesOf p).head?

/-- A reader that prints first what it reads first. -/
def Leads (r : Reader) : Prop :=
  ∀ ts p rest, r ts = some (p, rest) → p ≠ [] ∧ MeetsToo ts p

/-- A reader that prints first what it reads first, if it reads anything. -/
def MayLead (r : Reader) : Prop :=
  ∀ ts p rest, r ts = some (p, rest) → (p = [] ∧ rest = ts) ∨ (p ≠ [] ∧ MeetsToo ts p)

theorem Leads.mayLead {r : Reader} (h : Leads r) : MayLead r :=
  fun ts p rest hread => .inr (h ts p rest hread)

theorem pieces_ne_nil (t : TokenTree) : t.pieces ≠ [] := by
  cases t with
  | word w => rw [pieces_word]; exact List.cons_ne_nil _ _
  | mark c spacing s => rw [pieces_mark]; exact List.cons_ne_nil _ _
  | literal text s => rw [pieces_literal]; exact List.cons_ne_nil _ _
  | group d content s => rw [pieces_group]; exact List.cons_ne_nil _ _

theorem head?_piecesOf_cons (t : TokenTree) (rest : List TokenTree) :
    (piecesOf (t :: rest)).head? = t.pieces.head? := by
  rw [piecesOf_cons]
  cases h : t.pieces with
  | nil => exact absurd h (pieces_ne_nil t)
  | cons p ps => rfl

theorem meetsToo_cons (t : TokenTree) (rest rest' : List TokenTree) :
    MeetsToo (t :: rest) (t :: rest') := by
  intro q hq
  rwa [head?_piecesOf_cons] at hq ⊢

theorem MeetsToo.append_right {ts p : List TokenTree} (h : MeetsToo ts p) (hp : p ≠ [])
    (p' : List TokenTree) : MeetsToo ts (p ++ p') := by
  cases p with
  | nil => exact absurd rfl hp
  | cons a p =>
    intro q hq
    have := h q hq
    rw [List.cons_append]
    rwa [head?_piecesOf_cons] at this ⊢

theorem leads_readOperator {signs : List Char} (h : signs ≠ []) : Leads (readOperator signs) := by
  intro ts p rest hread
  obtain ⟨c, spacing, spacing', s, ts', p', rfl, rfl⟩ := head_of_readOperator hread h
  refine ⟨List.cons_ne_nil _ _, fun q hq => ?_⟩
  rw [head?_piecesOf_cons, pieces_mark] at hq ⊢
  rw [List.head?_cons] at hq ⊢
  generalize hsome : some (Piece.mark c spacing) = o at hq
  cases hq with
  | word text => exact .word text _
  | literal text => exact .literal text _
  | opening d => exact .opening d _
  | closing d => exact .closing d _
  | alone hc => exact .alone hc _
  | sign hc hcomment =>
    cases hsome
    exact .sign hc hcomment
  | character hc ht => cases hsome
  | lifetime text => cases hsome
  | quoted ht => cases hsome

section
variable {call : Phrase → Reader}

theorem leads_token (test : TokenTree → Bool) : Leads ((token test).read call) := by
  intro ts p rest hread
  cases ts with
  | nil => cases hread
  | cons t ts =>
    obtain ⟨q, hq, heq⟩ := Option.map_eq_some_iff.mp hread
    cases heq
    have hq : (if test t then some [t] else none) = some p := hq
    split at hq
    · cases hq
      exact ⟨List.cons_ne_nil _ _, meetsToo_cons t _ []⟩
    · cases hq

theorem leads_op (s : String) (h : s.toList ≠ []) : Leads ((op s).read call) :=
  leads_readOperator h

theorem leads_seq {a b : Syntax} (ha : Leads (a.read call)) : Leads ((Grammar.seq a b).read call) := by
  intro ts p rest hread
  obtain ⟨r, hr, hmap⟩ := Option.bind_eq_some_iff.mp hread
  obtain ⟨q, hq, heq⟩ := Option.map_eq_some_iff.mp hmap
  cases heq
  obtain ⟨hne, hmeets⟩ := ha ts r.1 r.2 hr
  exact ⟨List.append_ne_nil_of_left_ne_nil hne _, hmeets.append_right hne q.1⟩

theorem leads_seq_right {a b : Syntax} (ha : MayLead (a.read call)) (hb : Leads (b.read call)) :
    Leads ((Grammar.seq a b).read call) := by
  intro ts p rest hread
  obtain ⟨r, hr, hmap⟩ := Option.bind_eq_some_iff.mp hread
  obtain ⟨q, hq, heq⟩ := Option.map_eq_some_iff.mp hmap
  cases heq
  rcases ha ts r.1 r.2 hr with ⟨hnil, hrest⟩ | ⟨hne, hmeets⟩
  · rw [hrest] at hq
    rw [hnil, List.nil_append]
    exact hb ts q.1 q.2 hq
  · exact ⟨List.append_ne_nil_of_left_ne_nil hne _, hmeets.append_right hne q.1⟩

theorem mayLead_seq {a b : Syntax} (ha : MayLead (a.read call)) (hb : MayLead (b.read call)) :
    MayLead ((Grammar.seq a b).read call) := by
  intro ts p rest hread
  obtain ⟨r, hr, hmap⟩ := Option.bind_eq_some_iff.mp hread
  obtain ⟨q, hq, heq⟩ := Option.map_eq_some_iff.mp hmap
  cases heq
  rcases ha ts r.1 r.2 hr with ⟨hnil, hrest⟩ | ⟨hne, hmeets⟩
  · rw [hrest] at hq
    rw [hnil, List.nil_append]
    exact hb ts q.1 q.2 hq
  · exact .inr ⟨List.append_ne_nil_of_left_ne_nil hne _, hmeets.append_right hne q.1⟩

theorem leads_ifAhead (test : Ahead) {a b : Syntax} (ha : Leads (a.read call))
    (hb : Leads (b.read call)) : Leads ((Grammar.ifAhead test a b).read call) := by
  intro ts p rest hread
  rw [read] at hread
  split at hread
  · exact ha ts p rest hread
  · exact hb ts p rest hread

theorem mayLead_optional (test : Ahead) {a : Syntax} (ha : MayLead (a.read call)) :
    MayLead ((Grammar.optional test a).read call) := by
  intro ts p rest hread
  rw [optional, read] at hread
  split at hread
  · exact ha ts p rest hread
  · cases hread
    exact .inl ⟨rfl, rfl⟩

theorem mayLead_loop (test : Ahead) {body : Reader} (hbody : MayLead body) (n : Nat) :
    MayLead (loop test body n) := by
  induction n with
  | zero =>
    intro ts p rest hread
    cases hread
    exact .inl ⟨rfl, rfl⟩
  | succ n ih =>
    intro ts p rest hread
    rw [loop_succ] at hread
    split at hread
    · obtain ⟨r, hr, hmap⟩ := Option.bind_eq_some_iff.mp hread
      obtain ⟨q, hq, heq⟩ := Option.map_eq_some_iff.mp hmap
      cases heq
      rcases hbody ts r.1 r.2 hr with ⟨hnil, hrest⟩ | ⟨hne, hmeets⟩
      · rw [hrest] at hq
        rw [hnil, List.nil_append]
        exact ih ts q.1 q.2 hq
      · exact .inr ⟨List.append_ne_nil_of_left_ne_nil hne _, hmeets.append_right hne q.1⟩
    · cases hread
      exact .inl ⟨rfl, rfl⟩

/-- A member of a block prints first what it reads first. -/
theorem leads_memberRule : Leads (memberRule.read call) := by
  have hword : ∀ s, Leads ((word s).read call) := fun s => leads_token _
  have hmaybe : ∀ s, MayLead ((maybeWord s).read call) :=
    fun s => mayLead_optional _ (hword s).mayLead
  have hsignature : Leads (signature.read call) := by
    refine leads_seq_right ?_ (leads_seq (hword "fn"))
    refine mayLead_seq (hmaybe _) (mayLead_seq (hmaybe _) (mayLead_seq ?_
      (mayLead_seq (hmaybe _) ?_)))
    · exact mayLead_optional _ (hword "safe").mayLead
    · exact mayLead_optional _ (leads_seq (hword "extern")).mayLead
  have hpath : Leads (plainPath.read call) :=
    leads_seq_right (mayLead_optional _ (leads_op _ (by decide)).mayLead)
      (leads_seq (leads_token _))
  have hmacro : Leads (macroItem.read call) :=
    leads_ifAhead _ (leads_seq hpath) (leads_seq hpath)
  have hbody : Leads (memberBody.read call) :=
    leads_ifAhead _ (leads_seq hsignature) (leads_ifAhead _ (leads_seq (hword _))
      (leads_ifAhead _ (leads_seq (hword _)) (leads_ifAhead _ (leads_seq (hword _)) hmacro)))
  refine leads_seq_right ?_ (leads_seq_right ?_ (leads_seq_right ?_ hbody))
  · intro ts p rest hread
    exact mayLead_loop _ (leads_seq (leads_op _ (by decide))).mayLead _ ts p rest hread
  · exact mayLead_optional _ (leads_seq (hword "pub")).mayLead
  · exact mayLead_optional _ (hword "default").mayLead

end

/-! ## Members as written -/

theorem readable_replace {ps qs qs' : List Piece} (h : Readable (ps ++ qs)) (hqs : Readable qs')
    (hmeets : ∀ q : Piece, q.Meets qs.head? → q.Meets qs'.head?) : Readable (ps ++ qs') := by
  induction ps with
  | nil => exact hqs
  | cons p ps ih =>
    refine ⟨h.1, ?_, ih h.2.2⟩
    cases ps with
    | nil => exact hmeets p h.2.1
    | cons q ps => exact h.2.1

theorem take_of_suffix {s t : List TokenTree} (h : s <:+ t) :
    t = t.take (t.length - s.length) ++ s := by
  obtain ⟨u, rfl⟩ := h
  rw [List.length_append, Nat.add_sub_cancel, List.take_left]

/-- Members that stay as written where their print would lose something. What is written may be
joint to the next member, which therefore has to print first what it reads first. -/
theorem readable_members {test : Ahead} {test' : List TokenTree → Bool} {body : Reader}
    (hkeeps : Keeps body) (hleads : Leads body) {n : Nat} {ts p : List TokenTree}
    (hread : loop test (fun ts => (body ts).map fun r =>
      (if test' r.1 then r.1 else ts.take (ts.length - r.2.length), r.2)) n ts = some (p, []))
    (hts : Readable (piecesOf ts)) : Readable (piecesOf p) ∧ MeetsToo ts p := by
  induction n generalizing ts p with
  | zero =>
    cases hread
    exact ⟨hts, fun q hq => hq⟩
  | succ n ih =>
    rw [loop_succ] at hread
    by_cases htest : test ts
    · rw [if_pos htest] at hread
      obtain ⟨r, hr, hmap⟩ := Option.bind_eq_some_iff.mp hread
      obtain ⟨⟨rest', hend⟩, hq, heq⟩ := Option.map_eq_some_iff.mp hmap
      cases heq
      obtain ⟨m, hm, rfl⟩ := Option.map_eq_some_iff.mp hr
      obtain ⟨hp, hsuffix⟩ := hkeeps ts m.1 m.2 hm hts
      obtain ⟨hne, hlead⟩ := hleads ts m.1 m.2 hm
      obtain ⟨hrest', hmeets'⟩ := ih hq (readable_of_suffix hsuffix hts)
      dsimp only
      split
      · exact ⟨readable_append hp hrest', hlead.append_right hne rest'⟩
      · have hwritten := take_of_suffix hsuffix
        generalize ts.take (ts.length - m.2.length) = c at hwritten ⊢
        rw [hwritten, piecesOf_append] at hts
        rw [hwritten]
        constructor
        · rw [piecesOf_append]
          exact readable_replace hts hrest' hmeets'
        · cases c with
          | nil => exact hmeets'
          | cons t c => exact meetsToo_cons t _ _
    · rw [if_neg htest] at hread
      cases hread
      exact ⟨hts, fun q hq => hq⟩

/-! ## Tidy grammars -/

/-- Whether the grammar reads members that stay as written where their print would lose something. -/
def isMembers : Syntax → Bool
  | .writtenUnless _ (.rule .member) => true
  | _ => false

/-- Grammars whose prints may stand side by side. What stays as written may be joint to what comes
next, and so it has to be the last in its group: `closing` says that the grammar fills one. -/
def Tidy (closing : Bool) : Syntax → Prop
  | .nothing | .fail | .lifetime | .rule _ => True
  | .leaf accepts =>
    ∀ t p, accepts t = some p → ∀ rest, Readable (t.pieces ++ rest) → Readable (piecesOf p)
  | .operator signs => signs.contains '\'' = false
  | .inside _ content => content.Tidy true
  | .seq first second => first.Tidy false ∧ second.Tidy closing
  | .ifAhead _ yes no => yes.Tidy closing ∧ no.Tidy closing
  | .whileAhead _ body => (closing = true ∧ body.isMembers = true) ∨ body.Tidy false
  | .writtenUnless _ _ => False
  | .unlessAlone body => body.Tidy false
  | .parameters one => one.Tidy false

section
variable {closing : Bool}

@[simp] theorem tidy_nothing : Tidy closing .nothing := trivial

@[simp] theorem tidy_fail : Tidy closing .fail := trivial

@[simp] theorem tidy_lifetime : Tidy closing .lifetime := trivial

@[simp] theorem tidy_rule (name : Phrase) : Tidy closing (.rule name) := trivial

@[simp] theorem tidy_inside (d : Delimiter) (content : Syntax) :
    Tidy closing (.inside d content) ↔ content.Tidy true := Iff.rfl

@[simp] theorem tidy_seq (first second : Syntax) :
    Tidy closing (.seq first second) ↔ first.Tidy false ∧ second.Tidy closing := Iff.rfl

@[simp] theorem tidy_ifAhead (test : Ahead) (yes no : Syntax) :
    Tidy closing (.ifAhead test yes no) ↔ yes.Tidy closing ∧ no.Tidy closing := Iff.rfl

@[simp] theorem tidy_whileAhead (test : Ahead) (body : Syntax) :
    Tidy closing (.whileAhead test body) ↔
      (closing = true ∧ body.isMembers = true) ∨ body.Tidy false := Iff.rfl

@[simp] theorem tidy_unlessAlone (body : Syntax) :
    Tidy closing (.unlessAlone body) ↔ body.Tidy false := Iff.rfl

@[simp] theorem tidy_parameters (one : Syntax) :
    Tidy closing (.parameters one) ↔ one.Tidy false := Iff.rfl

@[simp] theorem tidy_optional (test : Ahead) (g : Syntax) :
    (optional test g).Tidy closing ↔ g.Tidy closing := by
  simp [optional]

end

theorem keeps_seq {call : Phrase → Reader} {a b : Syntax} (ha : Keeps (a.read call))
    (hb : Keeps (b.read call)) : Keeps ((Grammar.seq a b).read call) := by
  intro ts p rest hread hts
  obtain ⟨r, hr, hmap⟩ := Option.bind_eq_some_iff.mp hread
  obtain ⟨q, hq, heq⟩ := Option.map_eq_some_iff.mp hmap
  cases heq
  obtain ⟨hp, hsuffix⟩ := ha ts r.1 r.2 hr hts
  obtain ⟨hp', hsuffix'⟩ := hb r.2 q.1 q.2 hq (readable_of_suffix hsuffix hts)
  exact ⟨readable_append hp hp', hsuffix'.trans hsuffix⟩

theorem inside_eq_some_iff {call : Phrase → Reader} {d : Delimiter} {content : Syntax}
    {ts p rest : List TokenTree} :
    (Grammar.inside d content).read call ts = some (p, rest) ↔
      ∃ inner s printed, ts = TokenTree.group d inner s :: rest ∧
        content.read call inner = some (printed, []) ∧ p = [TokenTree.group d printed s] := by
  constructor
  · intro h
    cases ts with
    | nil => cases h
    | cons t rest' =>
      cases t with
      | group e inner s =>
        rw [Grammar.read] at h
        split at h
        · rename_i hd
          split at h
          · rename_i printed hprinted
            cases h
            exact ⟨inner, s, printed, by rw [hd], hprinted, rfl⟩
          · cases h
        · cases h
      | _ => cases h
  · rintro ⟨inner, s, printed, rfl, hinner, rfl⟩
    simp only [Grammar.read, if_true, hinner]

/-- A reader that prints readable pieces when it reads everything. -/
def Fills (r : Reader) : Prop :=
  ∀ ts p, r ts = some (p, []) → Readable (piecesOf ts) → Readable (piecesOf p)

theorem Keeps.fills {r : Reader} (h : Keeps r) : Fills r :=
  fun ts p hread hts => (h ts p [] hread hts).1

theorem keeps_inside {call : Phrase → Reader} {d : Delimiter} {content : Syntax}
    (h : Fills (content.read call)) : Keeps ((Grammar.inside d content).read call) := by
  intro ts p rest hread hts
  obtain ⟨inner, s, printed, rfl, hinner, rfl⟩ := inside_eq_some_iff.mp hread
  exact ⟨readable_of_group s (h inner printed hinner (readable_group hts)), List.suffix_cons _ _⟩

theorem fills_seq {call : Phrase → Reader} {a b : Syntax} (ha : Keeps (a.read call))
    (hb : Fills (b.read call)) : Fills ((Grammar.seq a b).read call) := by
  intro ts p hread hts
  obtain ⟨r, hr, hmap⟩ := Option.bind_eq_some_iff.mp hread
  obtain ⟨⟨q, past⟩, hq, heq⟩ := Option.map_eq_some_iff.mp hmap
  cases heq
  obtain ⟨hp, hsuffix⟩ := ha ts r.1 r.2 hr hts
  exact readable_append hp (hb r.2 q hq (readable_of_suffix hsuffix hts))

theorem keeps_ifAhead {call : Phrase → Reader} (test : Ahead) {a b : Syntax}
    (ha : Keeps (a.read call)) (hb : Keeps (b.read call)) :
    Keeps ((Grammar.ifAhead test a b).read call) := by
  intro ts p rest hread hts
  rw [read] at hread
  split at hread
  · exact ha ts p rest hread hts
  · exact hb ts p rest hread hts

theorem fills_ifAhead {call : Phrase → Reader} (test : Ahead) {a b : Syntax}
    (ha : Fills (a.read call)) (hb : Fills (b.read call)) :
    Fills ((Grammar.ifAhead test a b).read call) := by
  intro ts p hread hts
  rw [read] at hread
  split at hread
  · exact ha ts p hread hts
  · exact hb ts p hread hts

theorem fills_members {call : Phrase → Reader} (hcall : ∀ name, Keeps (call name))
    (hmember : Leads (call .member)) (test : Ahead) {body : Syntax} (h : body.isMembers = true) :
    Fills ((Grammar.whileAhead test body).read call) := by
  intro ts p hread hts
  unfold isMembers at h
  split at h
  · exact (readable_members (hcall .member) hmember hread hts).1
  · cases h

/-- What a tidy grammar prints is readable. -/
theorem keeps_read {call : Phrase → Reader} (hcall : ∀ name, Keeps (call name))
    (hmember : Leads (call .member)) (g : Syntax) :
    (g.Tidy false → Keeps (g.read call)) ∧ (g.Tidy true → Fills (g.read call)) := by
  -- only where a group is filled, is it more than the first half
  have both : ∀ {g : Syntax}, (g.Tidy true → g.Tidy false) → (g.Tidy false → Keeps (g.read call)) →
      (g.Tidy false → Keeps (g.read call)) ∧ (g.Tidy true → Fills (g.read call)) :=
    fun hopen hkeeps => ⟨hkeeps, fun h => (hkeeps (hopen h)).fills⟩
  induction g with
  | nothing =>
    refine both id fun _ ts p rest hread hts => ?_
    cases hread
    exact ⟨readable_nil, List.suffix_refl _⟩
  | fail => exact both id fun _ ts p rest hread hts => nomatch hread
  | lifetime => exact both id fun _ => keeps_readLifetime
  | rule name => exact both id fun _ => hcall name
  | leaf accepts =>
    refine both id fun h ts p rest hread hts => ?_
    cases ts with
    | nil => cases hread
    | cons t ts =>
      obtain ⟨q, hq, heq⟩ := Option.map_eq_some_iff.mp hread
      cases heq
      rw [piecesOf_cons] at hts
      exact ⟨h t p hq _ hts, List.suffix_cons _ _⟩
  | operator signs => exact both id fun h => keeps_readOperator h
  | inside d content ih => exact both id fun h => keeps_inside (ih.2 h)
  | seq first second ih ih' =>
    exact ⟨fun h => keeps_seq (ih.1 h.1) (ih'.1 h.2), fun h => fills_seq (ih.1 h.1) (ih'.2 h.2)⟩
  | ifAhead test yes no ih ih' =>
    exact ⟨fun h => keeps_ifAhead test (ih.1 h.1) (ih'.1 h.2),
      fun h => fills_ifAhead test (ih.2 h.1) (ih'.2 h.2)⟩
  | whileAhead test body ih =>
    have hloop : body.Tidy false → Keeps ((Grammar.whileAhead test body).read call) :=
      fun h ts p rest hread hts => keeps_loop (ih.1 h) _ ts p rest hread hts
    refine ⟨fun h => hloop ?_, fun h => ?_⟩
    · rcases h with ⟨h, -⟩ | h
      · cases h
      · exact h
    · rcases h with ⟨-, h⟩ | h
      · exact fills_members hcall hmember test h
      · exact (hloop h).fills
  | writtenUnless test body ih => exact both id fun h => h.elim
  | unlessAlone body ih =>
    refine both id fun h ts p rest hread hts => ?_
    obtain ⟨r, hr, heq⟩ := Option.map_eq_some_iff.mp hread
    cases heq
    obtain ⟨hp, hsuffix⟩ := ih.1 h ts r.1 r.2 hr hts
    refine ⟨?_, hsuffix⟩
    split
    · exact readable_nil
    · exact hp
  | parameters one ih => exact both id fun h => keeps_readGenerics (ih.1 h)

end CommandBot.Grammar
