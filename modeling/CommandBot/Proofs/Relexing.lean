import CommandBot.Proofs.LiteralScan
import CommandBot.Proofs.Pieces
import Mathlib.Data.List.Forall2

/-
  Reading the text of pieces back. `next_of_readable`: where a readable piece stands, the lexer
  reads it and nothing else; `exists_lexemesFrom` collects the steps, and `nest_of_pieces` pairs the
  brackets again. `tokens_charsOf` is the whole: the text of readable tokens lexes to these tokens.
-/

namespace CommandBot.Lexer

open Text Piece

/-! ## What is no separator and no comment -/

/-- Whether a character may begin a comment with what follows it. -/
def opensComment (c : Char) (rest : List Char) : Bool :=
  c == '/' && (rest.head? == some '/' || rest.head? == some '*')

theorem separator_of_not {c : Char} {rest : List Char} (hc : isSeparator c = false)
    (hcomment : opensComment c rest = false) : separator (c :: rest) = none := by
  unfold separator
  split
  · rename_i heq
    cases heq
    cases hcomment
  · rename_i heq
    cases heq
    cases hcomment
  · rename_i heq
    cases heq
    rw [hc, if_neg (by decide)]
  · rfl

theorem documentation_of_not {c : Char} {rest : List Char}
    (hcomment : opensComment c rest = false) : documentation (c :: rest) = none := by
  unfold documentation
  split
  all_goals first
    | rfl
    | (rename_i heq; cases heq; cases hcomment)

theorem isMark_of_not {c : Char} {rest : List Char} (hcomment : opensComment c rest = false) :
    isMark (c :: rest) = isMarkSign c := by
  unfold isMark
  split
  · rename_i heq
    cases heq
    cases hcomment
  · rename_i heq
    cases heq
    cases hcomment
  · rename_i heq
    cases heq
    rfl
  · rename_i heq
    cases heq

theorem opensComment_of_ne {c : Char} (hc : c ≠ '/') (rest : List Char) :
    opensComment c rest = false := by
  rw [opensComment, beq_false_of_ne hc, Bool.false_and]

theorem opensComment_of_endsToken (c : Char) {rest : List Char}
    (h : Literal.endsToken rest = true) : opensComment c rest = false := by
  cases rest with
  | nil => simp [opensComment]
  | cons d rest =>
    have hd : (some d == some '/' || some d == some '*') = false :=
      Literal.forall_isEnding (P := fun d => (some d == some '/' || some d == some '*') = false)
        rfl rfl rfl rfl h
    rw [opensComment, List.head?_cons, hd, Bool.and_false]

/-! ## Kinds of characters -/

/-- The signs of marks. -/
def signs : List Char := "~!@#$%^&*-=+|;:,<.>/?'".toList

/-- A sign of a mark has no other meaning, if it is no apostrophe. -/
theorem of_isMarkSign {c : Char} (h : isMarkSign c = true) :
    isSeparator c = false ∧ opened c = none ∧ closed c = none ∧ c.isDigit = false ∧
      isIdentifierStart c = false ∧ isIdentifierPart c = false ∧ c ≠ '"' := by
  have hall : (signs.all fun c => decide (isSeparator c = false ∧ opened c = none ∧
      closed c = none ∧ c.isDigit = false ∧ isIdentifierStart c = false ∧
      isIdentifierPart c = false ∧ c ≠ '"')) = true := by
    decide
  rw [isMarkSign, List.contains_iff_mem] at h
  exact of_decide_eq_true (List.all_eq_true.mp hall c h)

/-- The code points of the characters that separate tokens. -/
def separators : List Nat :=
  [9, 10, 11, 12, 13, 32, 0x85, 0xA0, 0x1680, 0x2000, 0x2001, 0x2002, 0x2003, 0x2004, 0x2005,
   0x2006, 0x2007, 0x2008, 0x2009, 0x200A, 0x2028, 0x2029, 0x202F, 0x205F, 0x3000, 0x200E, 0x200F]

theorem mem_separators {c : Char} (h : isSeparator c = true) : c.toNat ∈ separators := by
  simp only [isSeparator, isBlank, Bool.or_eq_true, Bool.and_eq_true, decide_eq_true_eq,
    beq_iff_eq] at h
  simp only [separators, List.mem_cons, List.not_mem_nil, or_false]
  omega

theorem isSeparator_of_isIdentifierStart {c : Char} (h : isIdentifierStart c = true) :
    isSeparator c = false := by
  have hall : ∀ n ∈ separators, isIdentifierStart (Char.ofNat n) = false := by
    decide +kernel
  by_contra hno
  have := hall c.toNat (mem_separators (Bool.not_eq_false _ ▸ hno))
  rw [Char.ofNat_toNat, h] at this
  cases this

/-- The first character of a word has no other meaning. -/
theorem of_isIdentifierStart {c : Char} (h : isIdentifierStart c = true) :
    isSeparator c = false ∧ isMarkSign c = false ∧ opened c = none ∧ closed c = none ∧
      c ≠ '/' ∧ c ≠ '\'' ∧ c ≠ '"' := by
  have hmark : isMarkSign c = false := by
    by_contra hno
    rw [(of_isMarkSign (Bool.not_eq_false _ ▸ hno)).2.2.2.2.1] at h
    cases h
  have hne : ∀ d, isIdentifierStart d = false → c ≠ d := by
    rintro d hd rfl
    rw [h] at hd
    cases hd
  refine ⟨isSeparator_of_isIdentifierStart h, hmark, ?_, ?_, hne '/' (by decide),
    hne '\'' (by decide), hne '"' (by decide)⟩
  · unfold opened
    split <;> first | rfl | exact absurd h (by decide)
  · unfold closed
    split <;> first | rfl | exact absurd h (by decide)

/-- A literal begins with a quote, a letter or a digit. -/
theorem head_of_scan {c : Char} {cs r : List Char} (h : Literal.scan (c :: cs) = some r) :
    c = '"' ∨ c = '\'' ∨ c = 'b' ∨ c = 'c' ∨ c = 'r' ∨ c.isDigit = true := by
  unfold Literal.scan at h
  split at h
  all_goals first
    | (rename_i heq; cases heq; simp)
    | skip
  obtain ⟨t, ht, hdigit, -⟩ := Literal.exists_of_number h
  have := Literal.head?_append_any hdigit r
  rw [← ht] at this
  exact .inr (.inr (.inr (.inr (.inr this))))

theorem of_isDigit {c : Char} (h : c.isDigit = true) : isSeparator c = false ∧ c ≠ '/' := by
  constructor
  · have hall : ∀ n ∈ separators, (Char.ofNat n).isDigit = false := by decide
    by_contra hno
    have := hall c.toNat (mem_separators (Bool.not_eq_false _ ▸ hno))
    rw [Char.ofNat_toNat, h] at this
    cases this
  · rintro rfl
    cases h

/-- Where a literal begins there is no separator and no comment. -/
theorem of_scan {c : Char} {cs r : List Char} (h : Literal.scan (c :: cs) = some r) :
    isSeparator c = false ∧ c ≠ '/' := by
  rcases head_of_scan h with rfl | rfl | rfl | rfl | rfl | h
  · decide
  · decide
  · decide
  · decide
  · decide
  · exact of_isDigit h

/-! ## Words -/

theorem not_isDigit_of_isIdentifierStart {c : Char} (h : isIdentifierStart c = true) :
    c.isDigit = false := by
  by_contra hno
  have hdigit : c.isDigit = true := Bool.not_eq_false _ ▸ hno
  rw [Char.isDigit, Bool.and_eq_true, decide_eq_true_eq, decide_eq_true_eq] at hdigit
  have hge : 48 ≤ c.toNat := hdigit.1
  have hle : c.toNat ≤ 57 := hdigit.2
  have hall : ∀ n < 58, 48 ≤ n → isIdentifierStart (Char.ofNat n) = false := by decide
  have := hall c.toNat (by omega) hge
  rw [Char.ofNat_toNat, h] at this
  cases this

/-- Whether a character may stand in a word, or right behind one. -/
def followsWord (c : Char) : Bool := isIdentifierPart c || Literal.isEnding c

theorem ne_of_followsWord {c : Char} (h : followsWord c = true) :
    c ≠ '"' ∧ c ≠ '#' ∧ c ≠ '\'' := by
  refine ⟨?_, ?_, ?_⟩ <;> (rintro rfl; revert h; decide)

theorem all_head?_followsWord {s r : List Char} (hs : s.all isIdentifierPart = true)
    (hr : Literal.endsToken r = true) : (s ++ r).head?.all followsWord = true := by
  cases s with
  | nil =>
    refine Literal.all_head?_of_endsToken (fun c hc => ?_) hr
    rw [followsWord, hc, Bool.or_true]
  | cons c s =>
    rw [List.all_cons, Bool.and_eq_true] at hs
    show followsWord c = true
    rw [followsWord, hs.1, Bool.true_or]

theorem raw_of_followsWord {content : Literal.Content} {cs : List Char}
    (h : cs.head?.all followsWord = true) : Literal.raw content cs = none := by
  cases cs with
  | nil => rfl
  | cons c cs =>
    obtain ⟨hquote, hhash, -⟩ := ne_of_followsWord h
    unfold Literal.raw
    rw [List.dropWhile_cons, if_neg (by simpa using hhash)]
    split
    · rename_i heq
      cases heq
      exact absurd rfl hquote
    · rfl

theorem number_of_not_digit {cs : List Char} (h : ¬cs.head?.any Char.isDigit = true) :
    Literal.number cs = none := by
  by_contra hno
  obtain ⟨r, hr⟩ := Option.ne_none_iff_exists'.mp hno
  obtain ⟨t, rfl, hdigit, -⟩ := Literal.exists_of_number hr
  exact h (Literal.head?_append_any hdigit r)

/-- No literal begins where an identifier ends the token. -/
theorem scan_of_identifier {c : Char} {s r : List Char} (hc : isIdentifierStart c = true)
    (hs : s.all isIdentifierPart = true) (hr : Literal.endsToken r = true) :
    Literal.scan (c :: s ++ r) = none := by
  have hhead := all_head?_followsWord hs hr
  obtain ⟨-, -, -, -, -, hne, hquote⟩ := of_isIdentifierStart hc
  have hquoted : ∀ d rest, s ++ r = d :: rest → d ≠ '"' ∧ d ≠ '\'' := by
    intro d rest heq
    rw [heq] at hhead
    exact ⟨(ne_of_followsWord hhead).1, (ne_of_followsWord hhead).2.2⟩
  have hsecond : ∀ content rest, s ++ r = 'r' :: rest → Literal.raw content rest = none := by
    intro content rest heq
    apply raw_of_followsWord
    cases s with
    | nil =>
      rw [List.nil_append] at heq
      rw [heq] at hr
      cases hr
    | cons d s =>
      rw [List.all_cons, Bool.and_eq_true] at hs
      cases heq
      exact all_head?_followsWord hs.2 hr
  rw [List.cons_append]
  unfold Literal.scan
  split
  · rename_i heq
    exact absurd (List.cons.inj heq).1 hquote
  · rename_i heq
    exact absurd rfl (hquoted _ _ (List.cons.inj heq).2).1
  · rename_i heq
    exact absurd rfl (hquoted _ _ (List.cons.inj heq).2).1
  · rename_i heq
    exact absurd rfl (hquoted _ _ (List.cons.inj heq).2).2
  · rename_i heq
    exact hsecond _ _ (List.cons.inj heq).2
  · rename_i heq
    exact hsecond _ _ (List.cons.inj heq).2
  · rename_i heq
    rw [← (List.cons.inj heq).2]
    exact raw_of_followsWord hhead
  · rename_i heq
    exact absurd (List.cons.inj heq).1 hne
  · refine number_of_not_digit ?_
    show ¬c.isDigit = true
    rw [not_isDigit_of_isIdentifierStart hc]
    decide

/-- No literal begins where a word marked raw stands. -/
theorem scan_of_raw_identifier {c : Char} (hc : isIdentifierStart c = true) (rest : List Char) :
    Literal.scan ('r' :: '#' :: c :: rest) = none := by
  have hhash : c ≠ '#' := by
    rintro rfl
    exact absurd hc (by decide)
  show Literal.raw .text ('#' :: c :: rest) = none
  unfold Literal.raw
  rw [List.dropWhile_cons, if_pos (by decide), List.dropWhile_cons, if_neg (by simpa using hhash)]
  split
  · rename_i heq
    cases heq
    exact absurd hc (by decide)
  · rfl

theorem identifier_append {t r : List Char} (ht : isIdentifier t = true)
    (hr : Literal.endsToken r = true) : Literal.identifier (t ++ r) = some r := by
  cases t with
  | nil => cases ht
  | cons c s =>
    rw [isIdentifier, Bool.and_eq_true] at ht
    rw [List.cons_append, Literal.identifier, if_pos ht.1, Literal.dropWhile_append_of_all ht.2,
      Literal.dropWhile_of_head?]
    refine Literal.all_head?_of_endsToken (fun c hc => ?_) hr
    rw [Literal.isIdentifierPart_of_isEnding hc]
    rfl

/-- A word is an identifier, or one behind the raw mark. -/
theorem isWord_cases {t : List Char} (h : isWord t = true) :
    (∃ c s, t = c :: s ∧ isIdentifierStart c = true ∧ s.all isIdentifierPart = true) ∨
      ∃ c s, t = 'r' :: '#' :: c :: s ∧ isIdentifierStart c = true ∧
        s.all isIdentifierPart = true ∧ isNeverRaw (c :: s) = false := by
  unfold isWord at h
  split at h
  · rename_i rest
    rw [Bool.and_eq_true, Bool.not_eq_true'] at h
    obtain ⟨hid, hraw⟩ := h
    cases rest with
    | nil => cases hid
    | cons c s =>
      rw [isIdentifier, Bool.and_eq_true] at hid
      exact .inr ⟨c, s, rfl, hid.1, hid.2, hraw⟩
  · cases t with
    | nil => cases h
    | cons c s =>
      rw [isIdentifier, Bool.and_eq_true] at h
      exact .inl ⟨c, s, rfl, h.1, h.2⟩

theorem anyWord_of_identifier {c : Char} {s r : List Char} (hc : isIdentifierStart c = true)
    (hs : s.all isIdentifierPart = true) (hr : Literal.endsToken r = true) :
    anyWord (c :: s ++ r) = some r := by
  have hid : isIdentifier (c :: s) = true := by
    rw [isIdentifier, hc, hs, Bool.and_true]
  unfold anyWord
  split
  · rename_i heq
    rw [List.cons_append] at heq
    have hhead := all_head?_followsWord hs hr
    rw [(List.cons.inj heq).2] at hhead
    exact absurd rfl (ne_of_followsWord hhead).2.1
  · exact identifier_append hid hr

theorem anyWord_of_raw_identifier {c : Char} {s r : List Char} (hc : isIdentifierStart c = true)
    (hs : s.all isIdentifierPart = true) (hraw : isNeverRaw (c :: s) = false)
    (hr : Literal.endsToken r = true) : anyWord ('r' :: '#' :: c :: s ++ r) = some r := by
  have hid : isIdentifier (c :: s) = true := by
    rw [isIdentifier, hc, hs, Bool.and_true]
  have htake : (c :: s ++ r).take ((c :: s ++ r).length - r.length) = c :: s := by
    rw [List.length_append, Nat.add_sub_cancel, List.take_left]
  show (Literal.identifier (c :: s ++ r)).filter (fun after =>
    !isNeverRaw ((c :: s ++ r).take ((c :: s ++ r).length - after.length))) = some r
  rw [identifier_append hid hr, Option.filter_some, htake, hraw]
  rfl

/-- A word that ends the token is read as a word, and is no literal. -/
theorem anyWord_append {t r : List Char} (ht : isWord t = true)
    (hr : Literal.endsToken r = true) : anyWord (t ++ r) = some r := by
  rcases isWord_cases ht with ⟨c, s, rfl, hc, hs⟩ | ⟨c, s, rfl, hc, hs, hraw⟩
  · exact anyWord_of_identifier hc hs hr
  · exact anyWord_of_raw_identifier hc hs hraw hr

theorem isQuoteOpening_of_anyWord {t r : List Char} (ht : isWord t = true)
    (hr : Literal.endsToken r = true) : isQuoteOpening (t ++ r) = false := by
  rcases isWord_cases ht with ⟨c, s, rfl, hc, hs⟩ | ⟨c, s, rfl, hc, hs, hraw⟩
  · have hhead := all_head?_followsWord hs hr
    have hfirst : ∀ d rest, s ++ r = d :: rest → d ≠ '"' ∧ d ≠ '#' ∧ d ≠ '\'' := by
      intro d rest heq
      rw [heq] at hhead
      exact ne_of_followsWord hhead
    have hsecond : ∀ d rest, s ++ r = 'r' :: d :: rest → d ≠ '"' ∧ d ≠ '#' := by
      intro d rest heq
      cases s with
      | nil =>
        rw [List.nil_append] at heq
        rw [heq] at hr
        cases hr
      | cons e s =>
        rw [List.all_cons, Bool.and_eq_true] at hs
        rw [List.cons_append] at heq
        have hhead := all_head?_followsWord hs.2 hr
        rw [(List.cons.inj heq).2] at hhead
        exact ⟨(ne_of_followsWord hhead).1, (ne_of_followsWord hhead).2.1⟩
    rw [List.cons_append]
    unfold isQuoteOpening
    split
    · rename_i heq
      exact absurd rfl (hfirst _ _ (List.cons.inj heq).2).1
    · rename_i heq
      exact absurd rfl (hfirst _ _ (List.cons.inj heq).2).2.1
    · rename_i heq
      exact absurd rfl (hfirst _ _ (List.cons.inj heq).2).2.1
    · rename_i heq
      exact absurd rfl (hfirst _ _ (List.cons.inj heq).2).1
    · rename_i heq
      exact absurd rfl (hfirst _ _ (List.cons.inj heq).2).2.2
    · rename_i heq
      exact absurd rfl (hsecond _ _ (List.cons.inj heq).2).1
    · rename_i heq
      exact absurd rfl (hsecond _ _ (List.cons.inj heq).2).2
    · rename_i heq
      exact absurd rfl (hfirst _ _ (List.cons.inj heq).2).1
    · rename_i heq
      exact absurd rfl (hsecond _ _ (List.cons.inj heq).2).1
    · rename_i heq
      exact absurd rfl (hsecond _ _ (List.cons.inj heq).2).2
    · rfl
  · have hne : c ≠ '"' ∧ c ≠ '#' := by
      constructor <;> (rintro rfl; exact absurd hc (by decide))
    unfold isQuoteOpening
    split
    all_goals first
      | rfl
      | (rename_i heq; cases heq; done)
      | (rename_i heq; cases heq; exact absurd rfl hne.1)
      | (rename_i heq; cases heq; exact absurd rfl hne.2)

theorem word_append {t r : List Char} (ht : isWord t = true) (hr : Literal.endsToken r = true) :
    word (t ++ r) = some r := by
  rw [word, isQuoteOpening_of_anyWord ht hr, if_neg (by decide), anyWord_append ht hr]

theorem scan_of_isWord {t r : List Char} (ht : isWord t = true)
    (hr : Literal.endsToken r = true) : Literal.scan (t ++ r) = none := by
  rcases isWord_cases ht with ⟨c, s, rfl, hc, hs⟩ | ⟨c, s, rfl, hc, -, -⟩
  · exact scan_of_identifier hc hs hr
  · exact scan_of_raw_identifier hc (s ++ r)

theorem exists_of_isWord {t : List Char} (ht : isWord t = true) :
    ∃ c s, t = c :: s ∧ isIdentifierStart c = true := by
  rcases isWord_cases ht with ⟨c, s, rfl, hc, -⟩ | ⟨c, s, rfl, -, -, -⟩
  · exact ⟨c, s, rfl, hc⟩
  · exact ⟨'r', '#' :: c :: s, rfl, by decide⟩

/-! ## One step of the lexer -/

theorem upTo_append (t r : List Char) : (t ++ r).take ((t ++ r).length - r.length) = t := by
  rw [List.length_append, Nat.add_sub_cancel, List.take_left]

theorem next_of_literal {c : Char} {t r : List Char} (p : Position)
    (hscan : Literal.scan (c :: t ++ r) = some r) :
    ∃ s, next p (c :: t ++ r) = some ([.leaf (.literal (String.ofList (c :: t)) s)], r) := by
  obtain ⟨hsep, hne⟩ := of_scan hscan
  have hcomment := opensComment_of_ne hne (t ++ r)
  have hseparator : separator (c :: t ++ r) = none := separator_of_not hsep hcomment
  have hdoc : documentation (c :: t ++ r) = none := documentation_of_not hcomment
  have hupTo := upTo_append (c :: t) r
  refine ⟨.written p (p.advance (c :: t)), ?_⟩
  unfold next
  rw [hseparator, hdoc, hscan]
  dsimp only
  rw [hupTo]

/-- What is no separator, comment or literal is a bracket, a mark or a word. -/
theorem next_of_none {c : Char} {rest : List Char} (p : Position)
    (hsep : separator (c :: rest) = none) (hdoc : documentation (c :: rest) = none)
    (hscan : Literal.scan (c :: rest) = none) :
    next p (c :: rest) =
      match opened c, closed c, mark (c :: rest), word (c :: rest) with
      | some d, _, _, _ => some ([.opening d p], rest)
      | _, some d, _, _ => some ([.closing d (p.step c)], rest)
      | _, _, some s, _ =>
        some ([.leaf (.mark c s (.written p
          (p.advance ((c :: rest).take ((c :: rest).length - rest.length)))))], rest)
      | _, _, _, some after =>
        some ([.leaf (.word ⟨String.ofList ((c :: rest).take ((c :: rest).length - after.length)),
          .written p (p.advance ((c :: rest).take ((c :: rest).length - after.length)))⟩)], after)
      | _, _, _, _ => none := by
  unfold next
  rewrite [hsep, hdoc, hscan]
  rfl

theorem next_of_mark {c : Char} {rest : List Char} {spacing : Spacing} (p : Position)
    (hc : isMarkSign c = true) (hcomment : opensComment c rest = false)
    (hscan : Literal.scan (c :: rest) = none) (hmark : mark (c :: rest) = some spacing) :
    ∃ s, next p (c :: rest) = some ([.leaf (.mark c spacing s)], rest) := by
  obtain ⟨hsep, hopened, hclosed, -⟩ := of_isMarkSign hc
  rw [next_of_none p (separator_of_not hsep hcomment) (documentation_of_not hcomment) hscan,
    hopened, hclosed, hmark]
  exact ⟨_, rfl⟩

theorem mark_of_isIdentifierStart {c : Char} (hc : isIdentifierStart c = true)
    (rest : List Char) : mark (c :: rest) = none := by
  obtain ⟨-, hsign, -, -, hslash, hquote, -⟩ := of_isIdentifierStart hc
  unfold mark
  split
  · rename_i heq
    exact absurd (List.cons.inj heq).1 hquote
  · rename_i heq
    cases heq
    rw [isMark_of_not (opensComment_of_ne hslash rest), hsign, if_neg (by decide)]
  · rfl

theorem next_of_word {t r : List Char} (p : Position) (ht : isWord t = true)
    (hr : Literal.endsToken r = true) :
    ∃ s, next p (t ++ r) = some ([.leaf (.word ⟨String.ofList t, s⟩)], r) := by
  obtain ⟨c, s, rfl, hc⟩ := exists_of_isWord ht
  obtain ⟨hsep, -, hopened, hclosed, hslash, -, -⟩ := of_isIdentifierStart hc
  have hcomment := opensComment_of_ne hslash (s ++ r)
  have hnext := next_of_none p (separator_of_not hsep hcomment) (documentation_of_not hcomment)
    (scan_of_isWord ht hr)
  have hword : word (c :: (s ++ r)) = some r := word_append ht hr
  have hupTo : (c :: (s ++ r)).take ((c :: (s ++ r)).length - r.length) = c :: s :=
    upTo_append (c :: s) r
  rw [hopened, hclosed, mark_of_isIdentifierStart hc, hword] at hnext
  dsimp only at hnext
  rw [hupTo] at hnext
  exact ⟨_, hnext⟩

theorem next_of_opening (p : Position) (d : Delimiter) (rest : List Char) :
    next p (Piece.chars (.opening d) ++ rest) = some ([.opening d p], rest) := by
  cases d <;> exact next_of_none p rfl rfl rfl

theorem next_of_closing (p : Position) (d : Delimiter) (rest : List Char) :
    ∃ q, next p (Piece.chars (.closing d) ++ rest) = some ([.closing d q], rest) := by
  cases d <;> exact ⟨_, next_of_none p rfl rfl rfl⟩

/-! ## Marks -/

/-- No literal begins with a mark, an apostrophe aside. -/
theorem scan_of_isMarkSign {c : Char} (hc : isMarkSign c = true) (hne : c ≠ '\'')
    (rest : List Char) : Literal.scan (c :: rest) = none := by
  obtain ⟨-, -, -, hdigit, hstart, -, hquote⟩ := of_isMarkSign hc
  by_contra hno
  obtain ⟨r, hr⟩ := Option.ne_none_iff_exists'.mp hno
  rcases head_of_scan hr with rfl | rfl | rfl | rfl | rfl | h
  · exact hquote rfl
  · exact hne rfl
  · cases hstart
  · cases hstart
  · cases hstart
  · rw [hdigit] at h
    cases h

theorem mark_of_isMarkSign {c : Char} {rest : List Char} (hc : isMarkSign c = true)
    (hne : c ≠ '\'') (hcomment : opensComment c rest = false) :
    mark (c :: rest) = some (if isMark rest then .joint else .alone) := by
  unfold mark
  split
  · rename_i heq
    exact absurd (List.cons.inj heq).1 hne
  · rename_i heq
    cases heq
    rw [isMark_of_not hcomment, hc, if_pos rfl]
  · rename_i heq
    cases heq

theorem isMark_of_endsToken {r : List Char} (h : Literal.endsToken r = true) :
    isMark r = false := by
  cases r with
  | nil => rfl
  | cons c r =>
    rw [isMark_of_not (opensComment_of_ne ?_ r)]
    · exact Literal.forall_isEnding (P := fun c => isMarkSign c = false) (by decide) (by decide)
        (by decide) (by decide) h
    · exact Literal.forall_isEnding (P := fun c => c ≠ '/') (by decide) (by decide)
        (by decide) (by decide) h

/-- What follows a space or a bracket, or a piece that a space follows, ends the token. -/
theorem endsToken_charsFrom (ps : List Piece) :
    Literal.endsToken (charsFrom true ps ++ ['\n']) = true := by
  cases ps with
  | nil => rfl
  | cons p ps =>
    cases p with
    | closing d => cases d <;> rfl
    | _ => rfl

/-- A readable mark begins a mark, and no comment. -/
theorem opensComment_of_readable {c : Char} {spacing : Spacing} {ps : List Piece}
    (h : Readable (.mark c spacing :: ps)) :
    opensComment c (charsFrom (isSpaced (.mark c spacing)) ps ++ ['\n']) = false := by
  obtain ⟨-, hmeets, -⟩ := h
  cases spacing with
  | alone => exact opensComment_of_endsToken c (endsToken_charsFrom ps)
  | joint =>
    cases ps with
    | nil => cases hmeets
    | cons q ps =>
      rw [List.head?_cons] at hmeets
      cases hmeets with
      | @sign _ d spacing _ hcomment =>
        show (c == '/' && (some d == some '/' || some d == some '*')) = false
        by_cases hc : c = '/'
        · obtain ⟨h1, h2⟩ := hcomment hc
          rw [Bool.and_eq_false_iff, Bool.or_eq_false_iff]
          exact .inr ⟨beq_false_of_ne (by simpa using h1), beq_false_of_ne (by simpa using h2)⟩
        · rw [beq_false_of_ne hc, Bool.false_and]
      | @character _ text _ ht =>
        rw [charsFrom_cons]
        show opensComment c (text.toList ++ _ ++ _) = false
        rw [opensComment]
        cases hlist : text.toList with
        | nil =>
          rw [hlist] at ht
          cases ht
        | cons d rest =>
          rw [hlist] at ht
          cases ht
          simp
      | lifetime text => exact opensComment_of_ne (by decide) _
      | quoted ht => exact opensComment_of_ne (by decide) _

/-- A mark in front of a readable mark, or of a character, is joint to it. -/
theorem isMark_charsFrom {c : Char} {ps : List Piece} (h : Readable (.mark c .joint :: ps))
    (hne : c ≠ '\'') : isMark (charsFrom false ps ++ ['\n']) = true := by
  obtain ⟨-, hmeets, hrest⟩ := h
  cases ps with
  | nil => cases hmeets
  | cons q ps =>
    rw [List.head?_cons] at hmeets
    cases hmeets with
    | @sign _ d spacing _ hcomment =>
      show isMark (d :: (charsFrom (isSpaced (.mark d spacing)) ps ++ ['\n'])) = true
      rw [isMark_of_not (opensComment_of_readable hrest)]
      exact hrest.1
    | @character _ text _ ht =>
      show isMark (text.toList ++ _ ++ _) = true
      cases hlist : text.toList with
      | nil =>
        rw [hlist] at ht
        cases ht
      | cons d rest =>
        rw [hlist] at ht
        cases ht
        rfl
    | lifetime text => exact absurd rfl hne
    | quoted ht => exact absurd rfl hne

theorem character_of_not {c : Char} {rest : List Char} (hc : c ≠ '\\')
    (hd : rest.head? ≠ some '\'') : Literal.character .text (c :: rest) = none := by
  have hunit : Literal.unit .text (c :: rest) = some rest :=
    Literal.unit.eq_5 .text c _ (fun _ _ _ e => absurd e hc) (fun _ e => absurd e hc)
      (fun _ _ e => absurd e hc) (fun e => absurd e hc)
  unfold Literal.character
  rw [hunit]
  split
  · rename_i heq
    cases heq
    exact absurd rfl hd
  · rfl

/-- An apostrophe is a mark if it begins a lifetime, which no further apostrophe ends. -/
theorem mark_cons_apostrophe (cs : List Char) :
    mark ('\'' :: cs) = (anyWord cs).bind fun after =>
      if after.head? = some '\'' ∨ (after.head? = some '#' ∧ cs.take 2 ≠ ['r', '#']) then none
      else some .joint := by
  rw [mark]
  cases anyWord cs <;> rfl

/-- The apostrophe of a lifetime. -/
theorem mark_of_lifetime {t r : List Char} (ht : isWord t = true)
    (hr : Literal.endsToken r = true) :
    Literal.scan ('\'' :: (t ++ r)) = none ∧ mark ('\'' :: (t ++ r)) = some .joint := by
  constructor
  · show Literal.character .text (t ++ r) = none
    rcases isWord_cases ht with ⟨c, s, rfl, hc, hs⟩ | ⟨c, s, rfl, -, -, -⟩
    · refine character_of_not ?_ fun hquote => ?_
      · rintro rfl
        exact absurd hc (by decide)
      · have hquote : (s ++ r).head? = some '\'' := hquote
        have hhead := all_head?_followsWord hs hr
        rw [hquote] at hhead
        exact (ne_of_followsWord hhead).2.2 rfl
    · exact character_of_not (by decide) (fun hquote => by cases hquote)
  · rw [mark_cons_apostrophe, anyWord_append ht hr]
    refine if_neg ?_
    cases r with
    | nil => simp
    | cons c r =>
      have hc : c ≠ '\'' ∧ c ≠ '#' :=
        Literal.forall_isEnding (P := fun c => c ≠ '\'' ∧ c ≠ '#') (by decide) (by decide)
          (by decide) (by decide) hr
      simp [hc.1, hc.2]

theorem mark_of_quoted {t : List Char} (ht : beginsAsWord t = true) (r : List Char) :
    Literal.scan ('\'' :: (t ++ r)) = none ∧ mark ('\'' :: (t ++ r)) = some .joint := by
  unfold beginsAsWord at ht
  split at ht
  all_goals first
    | exact ⟨rfl, rfl⟩
    | cases ht

/-! ## Readable text -/

/-- A lexeme that is one piece. -/
inductive Shows : Lexeme → Piece → Prop where
  | word (w : Word) : Shows (.leaf (.word w)) (.word w.text)
  | mark (c : Char) (spacing : Spacing) (s : Span) :
      Shows (.leaf (.mark c spacing s)) (.mark c spacing)
  | literal (text : String) (s : Span) : Shows (.leaf (.literal text s)) (.literal text)
  | opening (d : Delimiter) (p : Position) : Shows (.opening d p) (.opening d)
  | closing (d : Delimiter) (p : Position) : Shows (.closing d p) (.closing d)

/-- A readable apostrophe is the mark of a lifetime. -/
theorem scan_mark_of_apostrophe {spacing : Spacing} {ps : List Piece}
    (h : Readable (.mark '\'' spacing :: ps)) :
    Literal.scan ('\'' :: (charsFrom (isSpaced (.mark '\'' spacing)) ps ++ ['\n'])) = none ∧
      mark ('\'' :: (charsFrom (isSpaced (.mark '\'' spacing)) ps ++ ['\n'])) = some spacing := by
  obtain ⟨-, hmeets, hrest⟩ := h
  cases ps with
  | nil =>
    cases hmeets with
    | alone hc => exact absurd rfl hc
  | cons q ps =>
    rw [List.head?_cons] at hmeets
    cases hmeets with
    | alone hc => exact absurd rfl hc
    | sign hc => exact absurd rfl hc
    | character hc => exact absurd rfl hc
    | lifetime text =>
      have := mark_of_lifetime hrest.1 (endsToken_charsFrom ps)
      rwa [← List.append_assoc] at this
    | quoted ht =>
      rename_i text
      have := mark_of_quoted ht (charsFrom true ps ++ ['\n'])
      rwa [← List.append_assoc] at this

/-- Where a readable piece stands, the lexer reads it. -/
theorem next_of_readable {p : Piece} {ps : List Piece} (h : Readable (p :: ps)) (pos : Position) :
    ∃ l, next pos (p.chars ++ (charsFrom p.isSpaced ps ++ ['\n'])) =
        some ([l], charsFrom p.isSpaced ps ++ ['\n']) ∧ Shows l p := by
  have hsound := h.1
  have hends := endsToken_charsFrom ps
  cases p with
  | word text =>
    obtain ⟨s, hs⟩ := next_of_word pos hsound hends
    rw [String.ofList_toList] at hs
    exact ⟨_, hs, .word ⟨text, s⟩⟩
  | literal text =>
    have hscan := hsound _ hends
    cases ht : text.toList with
    | nil =>
      have := hsound [] rfl
      rw [ht] at this
      cases this
    | cons c t =>
      rw [ht] at hscan
      obtain ⟨s, hs⟩ := next_of_literal pos hscan
      rw [← ht, String.ofList_toList] at hs
      exact ⟨_, hs, .literal text s⟩
  | opening d => exact ⟨_, next_of_opening pos d _, .opening d pos⟩
  | closing d =>
    obtain ⟨q, hq⟩ := next_of_closing pos d (charsFrom true ps ++ ['\n'])
    exact ⟨_, hq, .closing d q⟩
  | mark c spacing =>
    have hcomment := opensComment_of_readable h
    have hboth : Literal.scan (c :: (charsFrom (isSpaced (.mark c spacing)) ps ++ ['\n'])) = none ∧
        mark (c :: (charsFrom (isSpaced (.mark c spacing)) ps ++ ['\n'])) = some spacing := by
      by_cases hc : c = '\''
      · subst hc
        exact scan_mark_of_apostrophe h
      · refine ⟨scan_of_isMarkSign hsound hc _, ?_⟩
        rw [mark_of_isMarkSign hsound hc hcomment]
        cases spacing with
        | alone => rw [show isSpaced (.mark c .alone) = true from rfl, isMark_of_endsToken hends]; rfl
        | joint => rw [show isSpaced (.mark c .joint) = false from rfl, isMark_charsFrom h hc]; rfl
    obtain ⟨s, hs⟩ := next_of_mark pos hsound hcomment hboth.1 hboth.2
    exact ⟨_, hs, .mark c spacing s⟩

theorem length_chars_pos {p : Piece} (h : p.IsSound) : 0 < p.chars.length := by
  cases p with
  | word text =>
    obtain ⟨c, s, hcs, -⟩ := exists_of_isWord (show isWord text.toList = true from h)
    rw [Piece.chars, hcs]
    exact Nat.succ_pos _
  | mark c spacing => exact Nat.succ_pos _
  | literal text =>
    have hscan : Literal.scan (text.toList ++ []) = some [] := h [] rfl
    rw [Piece.chars]
    cases ht : text.toList with
    | nil =>
      rw [ht] at hscan
      cases hscan
    | cons c t => exact Nat.succ_pos _
  | opening d => cases d <;> decide
  | closing d => cases d <;> decide

theorem next_of_space (p : Position) (rest : List Char) : next p (' ' :: rest) = some ([], rest) := by
  rfl

theorem gap_cases (p : Piece) (b : Bool) : p.gap b = [] ∨ p.gap b = [' '] := by
  cases p with
  | closing d => cases d <;> simp [gap]
  | _ => cases b <;> simp [gap]

theorem lexemesFrom_of_next {pos : Position} {cs rest : List Char} {found : List Lexeme}
    (h : next pos cs = some (found, rest)) (n : Nat) :
    ∃ pos', lexemesFrom (n + 1) pos cs = (lexemesFrom n pos' rest).map (found ++ ·) := by
  cases cs with
  | nil => cases h
  | cons c cs =>
    refine ⟨pos.advance ((c :: cs).take ((c :: cs).length - rest.length)), ?_⟩
    rw [lexemesFrom, h]
    exact fun heq => nomatch heq

/-- The lexer reads readable pieces back from their text, up to the end of the line. -/
theorem exists_lexemesFrom {ps : List Piece} (h : Readable ps) (b : Bool) (pos : Position) {n : Nat}
    (hn : (charsFrom b ps ++ ['\n']).length ≤ n) :
    ∃ ls, lexemesFrom n pos (charsFrom b ps ++ ['\n']) = some ls ∧ List.Forall₂ Shows ls ps := by
  induction ps generalizing b pos n with
  | nil =>
    cases n with
    | zero => cases hn
    | succ n =>
      obtain ⟨pos', hstep⟩ :=
        lexemesFrom_of_next (show next pos ['\n'] = some ([], []) from rfl) n
      refine ⟨[], hstep.trans ?_, .nil⟩
      rw [lexemesFrom]
      rfl
  | cons p ps ih =>
    have hpos := length_chars_pos h.1
    have hpiece : ∀ pos n, (p.chars ++ (charsFrom p.isSpaced ps ++ ['\n'])).length ≤ n →
        ∃ ls, lexemesFrom n pos (p.chars ++ (charsFrom p.isSpaced ps ++ ['\n'])) = some ls ∧
          List.Forall₂ Shows ls (p :: ps) := by
      intro pos n hn
      rw [List.length_append] at hn
      cases n with
      | zero => omega
      | succ n =>
        obtain ⟨l, hnext, hshows⟩ := next_of_readable h pos
        obtain ⟨pos', hstep⟩ := lexemesFrom_of_next hnext n
        obtain ⟨ls, hls, hall⟩ := ih h.2.2 p.isSpaced pos' (n := n) (by omega)
        exact ⟨l :: ls, by rw [hstep, hls]; rfl, .cons hshows hall⟩
    rw [charsFrom_cons, List.append_assoc, List.append_assoc] at hn ⊢
    rcases gap_cases p b with hgap | hgap
    · rw [hgap] at hn ⊢
      exact hpiece pos n hn
    · rw [hgap] at hn ⊢
      cases n with
      | zero => cases hn
      | succ n =>
        obtain ⟨pos', hstep⟩ := lexemesFrom_of_next
          (next_of_space pos (p.chars ++ (charsFrom p.isSpaced ps ++ ['\n']))) n
        obtain ⟨ls, hls, hall⟩ := hpiece pos' n (Nat.le_of_succ_le_succ hn)
        refine ⟨ls, hstep.trans ?_, hall⟩
        rw [hls]
        rfl

/-! ## Brackets -/

theorem Shows.of_word {l : Lexeme} {text : String} (h : Shows l (.word text)) :
    ∃ w : Word, w.text = text ∧ l = .leaf (.word w) := by
  cases h with
  | word w => exact ⟨w, rfl, rfl⟩

theorem exists_append_of_forall₂ {ls : List Lexeme} {ps qs : List Piece}
    (h : List.Forall₂ Shows ls (ps ++ qs)) :
    ∃ l₁ l₂, ls = l₁ ++ l₂ ∧ List.Forall₂ Shows l₁ ps ∧ List.Forall₂ Shows l₂ qs :=
  ⟨ls.take ps.length, ls.drop ps.length, (List.take_append_drop ..).symm,
    List.forall₂_take_append ls ps qs h, List.forall₂_drop_append ls ps qs h⟩

open TokenTree in
mutual

/-- The pieces of a token nest to the token again, whatever stands around them. -/
theorem nest_of_pieces (stack : Open) (before : List TokenTree) (more : List Lexeme) :
    ∀ (t : TokenTree) (ls : List Lexeme), List.Forall₂ Shows ls t.pieces →
      ∃ t', t'.unplaced = t.unplaced ∧
        nest stack before (ls ++ more) = nest stack (t' :: before) more
  | .word w, ls, h => by
    rw [pieces_word] at h
    obtain ⟨l, ls, hl, hnil, rfl⟩ := List.forall₂_cons_right_iff.mp h
    cases hnil
    obtain ⟨v, hv, rfl⟩ := hl.of_word
    refine ⟨.word v, by rw [unplaced_word, unplaced_word, hv], ?_⟩
    rw [List.singleton_append, nest]
  | .mark c spacing s, ls, h => by
    rw [pieces_mark] at h
    obtain ⟨l, ls, hl, hnil, rfl⟩ := List.forall₂_cons_right_iff.mp h
    cases hnil
    cases hl with
    | mark _ _ s' =>
      refine ⟨.mark c spacing s', by rw [unplaced_mark, unplaced_mark], ?_⟩
      rw [List.singleton_append, nest]
  | .literal text s, ls, h => by
    rw [pieces_literal] at h
    obtain ⟨l, ls, hl, hnil, rfl⟩ := List.forall₂_cons_right_iff.mp h
    cases hnil
    cases hl with
    | literal _ s' =>
      refine ⟨.literal text s', by rw [unplaced_literal, unplaced_literal], ?_⟩
      rw [List.singleton_append, nest]
  | .group d content s, ls, h => by
    rw [pieces_group] at h
    obtain ⟨l, ls, hl, hrest, rfl⟩ := List.forall₂_cons_right_iff.mp h
    obtain ⟨l₁, l₂, rfl, h₁, h₂⟩ := exists_append_of_forall₂ hrest
    obtain ⟨l', ls, hl', hnil, rfl⟩ := List.forall₂_cons_right_iff.mp h₂
    cases hnil
    cases hl with
    | opening _ p =>
      cases hl' with
      | closing _ q =>
        obtain ⟨content', hcontent, hnest⟩ := nest_of_piecesOf ((d, p, before) :: stack) []
          (.closing d q :: more) content l₁ h₁
        refine ⟨.group d content' (.written p q), ?_, ?_⟩
        · rw [unplaced_group, unplaced_group, hcontent]
        · rw [List.cons_append, List.append_assoc, List.singleton_append, nest, hnest, nest,
            if_pos rfl, List.append_nil, List.reverse_reverse]

theorem nest_of_piecesOf (stack : Open) (before : List TokenTree) (more : List Lexeme) :
    ∀ (ts : List TokenTree) (ls : List Lexeme), List.Forall₂ Shows ls (piecesOf ts) →
      ∃ ts', unplacedAll ts' = unplacedAll ts ∧
        nest stack before (ls ++ more) = nest stack (ts'.reverse ++ before) more
  | [], ls, h => by
    rw [piecesOf_nil] at h
    cases h
    exact ⟨[], rfl, rfl⟩
  | t :: rest, ls, h => by
    rw [piecesOf_cons] at h
    obtain ⟨l₁, l₂, rfl, h₁, h₂⟩ := exists_append_of_forall₂ h
    obtain ⟨t', ht, hnest⟩ := nest_of_pieces stack before (l₂ ++ more) t l₁ h₁
    obtain ⟨ts', hts, hrest⟩ := nest_of_piecesOf stack (t' :: before) more rest l₂ h₂
    refine ⟨t' :: ts', by rw [unplacedAll_cons, unplacedAll_cons, ht, hts], ?_⟩
    rw [List.append_assoc, hnest, hrest, List.reverse_cons, List.append_assoc]
    rfl

end

/-! ## The whole text -/

/-- The text of readable tokens, with the end of its line, lexes to these tokens. -/
theorem tokens_charsOf {ts : List TokenTree} (h : Readable (TokenTree.piecesOf ts)) (pos : Position)
    {n : Nat} (hn : (TokenTree.charsOf ts ++ ['\n']).length ≤ n) :
    ∃ ts', (lexemesFrom n pos (TokenTree.charsOf ts ++ ['\n'])).bind (nest [] []) = some ts' ∧
      TokenTree.unplacedAll ts' = TokenTree.unplacedAll ts := by
  have htext := charsFrom_piecesOf false [] (fun _ _ => rfl) ts
  have hchars : charsFrom false (TokenTree.piecesOf ts) = TokenTree.charsOf ts := by
    simpa [charsFrom] using htext
  rw [← hchars] at hn ⊢
  obtain ⟨ls, hls, hall⟩ := exists_lexemesFrom h false pos hn
  obtain ⟨ts', hts, hnest⟩ := nest_of_piecesOf [] [] [] ts ls hall
  refine ⟨ts', ?_, hts⟩
  rw [hls, Option.bind_some]
  rw [List.append_nil, List.append_nil] at hnest
  rw [hnest, nest, List.reverse_reverse]

end CommandBot.Lexer
