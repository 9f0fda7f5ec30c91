import CommandBot.Proofs.Relexing
import CommandBot.Proofs.TextLiteral

/-
  What the lexer reads is readable (`readable_of_tokens`): a mark is joint only to what follows it
  as a mark, an apostrophe or a word, and a documentation comment stands for tokens of which none is
  joint.
-/

namespace CommandBot.Lexer

open Text Piece

/-- The pieces of a lexeme. -/
def Lexeme.pieces : Lexeme → List Piece
  | .leaf t => t.pieces
  | .opening d _ => [.opening d]
  | .closing d _ => [.closing d]

/-- The pieces of some lexemes. -/
def piecesOf (ls : List Lexeme) : List Piece := ls.flatMap Lexeme.pieces

theorem piecesOf_cons (l : Lexeme) (ls : List Lexeme) :
    piecesOf (l :: ls) = l.pieces ++ piecesOf ls := List.flatMap_cons

theorem piecesOf_append (ls ls' : List Lexeme) :
    piecesOf (ls ++ ls') = piecesOf ls ++ piecesOf ls' := List.flatMap_append

/-! ## Brackets -/

/-- The pieces of the open groups and of the tokens in the innermost one. -/
def openPieces : Open → List TokenTree → List Piece
  | [], before => TokenTree.piecesOf before.reverse
  | (d, _, outside) :: stack, before =>
    openPieces stack outside ++ .opening d :: TokenTree.piecesOf before.reverse

theorem openPieces_cons (stack : Open) (t : TokenTree) (before : List TokenTree) :
    openPieces stack (t :: before) = openPieces stack before ++ t.pieces := by
  have htokens : TokenTree.piecesOf (t :: before).reverse =
      TokenTree.piecesOf before.reverse ++ t.pieces := by
    rw [List.reverse_cons, TokenTree.piecesOf_append, TokenTree.piecesOf_cons,
      TokenTree.piecesOf_nil, List.append_nil]
  cases stack with
  | nil => exact htokens
  | cons o stack =>
    obtain ⟨d, p, outside⟩ := o
    rw [openPieces, openPieces, htokens, List.append_assoc, List.cons_append]

/-- Pairing the brackets keeps the pieces. -/
theorem piecesOf_of_nest {stack : Open} {before : List TokenTree} {ls : List Lexeme}
    {ts : List TokenTree} (h : nest stack before ls = some ts) :
    openPieces stack before ++ piecesOf ls = TokenTree.piecesOf ts := by
  fun_induction nest stack before ls with
  | case1 before =>
    cases h
    exact List.append_nil _
  | case2 => cases h
  | case3 stack before t rest ih =>
    rw [← ih h, openPieces_cons, piecesOf_cons, List.append_assoc]
    rfl
  | case4 stack before d p rest ih =>
    rw [← ih h, piecesOf_cons, openPieces, List.append_assoc]
    rfl
  | case5 p outside stack before e past rest ih =>
    rw [← ih h, piecesOf_cons, openPieces_cons, TokenTree.pieces_group, openPieces]
    simp [Lexeme.pieces]
  | case6 => cases h
  | case7 => cases h

/-! ## What begins a text -/

theorem raw_cases {content : Literal.Content} {cs r : List Char}
    (h : Literal.raw content cs = some r) : ∃ rest, cs = '"' :: rest ∨ cs = '#' :: rest := by
  cases cs with
  | nil => cases h
  | cons c cs =>
    by_cases hc : c = '#'
    · exact ⟨cs, .inr (by rw [hc])⟩
    · unfold Literal.raw at h
      rw [List.dropWhile_cons, if_neg (by simpa using hc)] at h
      split at h
      · rename_i heq
        cases heq
        exact ⟨cs, .inl rfl⟩
      · cases h

theorem raw_cases_of_hash {content : Literal.Content} {cs r : List Char}
    (h : Literal.raw content ('#' :: cs) = some r) : ∃ rest, cs = '"' :: rest ∨ cs = '#' :: rest := by
  cases cs with
  | nil => cases h
  | cons c cs =>
    by_cases hc : c = '#'
    · exact ⟨cs, .inr (by rw [hc])⟩
    · unfold Literal.raw at h
      rw [List.dropWhile_cons, if_pos (by decide), List.dropWhile_cons,
        if_neg (by simpa using hc)] at h
      split at h
      · rename_i heq
        cases heq
        exact ⟨cs, .inl rfl⟩
      · cases h

/-- What is joint to a mark: another mark of the sign that follows, or a character. -/
def FollowsMark (cs : List Char) (q : Option Piece) : Prop :=
  (∃ d spacing, cs.head? = some d ∧ q = some (.mark d spacing)) ∨
    ∃ text : String, text.toList.head? = some '\'' ∧ q = some (.literal text)

/-- What is joint to an apostrophe: a word, or a literal that begins as one. -/
def FollowsApostrophe (q : Option Piece) : Prop :=
  (∃ text, q = some (.word text)) ∨
    ∃ text : String, beginsAsWord text.toList = true ∧ q = some (.literal text)

theorem exists_next_of_lexemesFrom {n : Nat} {p : Position} {c : Char} {cs : List Char}
    {ls : List Lexeme} (h : lexemesFrom n p (c :: cs) = some ls) :
    ∃ m found rest p' ls', n = m + 1 ∧ next p (c :: cs) = some (found, rest) ∧
      lexemesFrom m p' rest = some ls' ∧ ls = found ++ ls' := by
  cases n with
  | zero => cases h
  | succ m =>
    rw [lexemesFrom] at h
    · split at h
      · cases h
      · rename_i found rest hnext
        obtain ⟨ls', hls', rfl⟩ := Option.map_eq_some_iff.mp h
        exact ⟨m, found, rest, _, ls', rfl, hnext, hls', rfl⟩
    · exact List.cons_ne_nil c cs

/-- A literal is read whole. -/
theorem exists_of_next_of_scan {p : Position} {c : Char} {cs r : List Char}
    (hscan : Literal.scan (c :: cs) = some r) :
    ∃ t s, c :: cs = c :: t ++ r ∧ Literal.Takes Literal.scan (c :: t) ∧
      next p (c :: cs) = some ([.leaf (.literal (String.ofList (c :: t)) s)], r) := by
  obtain ⟨t, ht, htakes⟩ := Literal.exists_of_scan hscan
  cases t with
  | nil =>
    have hnil : Literal.scan ([] ++ []) = some [] := htakes [] rfl
    cases hnil
  | cons d t =>
    rw [List.cons_append] at ht
    obtain ⟨rfl, rfl⟩ := List.cons.inj ht
    obtain ⟨s, hs⟩ := next_of_literal p hscan
    exact ⟨t, s, rfl, htakes, hs⟩

theorem word_of_isMarkSign {c : Char} (hc : isMarkSign c = true) (cs : List Char) :
    word (c :: cs) = none := by
  have hstart : isIdentifierStart c = false := (of_isMarkSign hc).2.2.2.2.1
  have hany : anyWord (c :: cs) = none := by
    unfold anyWord
    split
    · rename_i heq
      cases heq
      cases hstart
    · rw [Literal.identifier, hstart, if_neg (by decide)]
  unfold word
  split
  · rfl
  · exact hany

theorem followsMark_of_lexemesFrom {n : Nat} {p : Position} {cs : List Char} {ls : List Lexeme}
    (h : lexemesFrom n p cs = some ls) (hmark : isMark cs = true) :
    FollowsMark cs (piecesOf ls).head? := by
  cases cs with
  | nil => cases hmark
  | cons c cs =>
    obtain ⟨m, found, rest, p', ls', rfl, hnext, -, rfl⟩ := exists_next_of_lexemesFrom h
    have hcomment : opensComment c cs = false := by
      by_contra hno
      rw [Bool.not_eq_false, opensComment, Bool.and_eq_true, beq_iff_eq] at hno
      obtain ⟨rfl, hhead⟩ := hno
      cases cs with
      | nil => cases hhead
      | cons d cs =>
        rw [Bool.or_eq_true, beq_iff_eq, beq_iff_eq] at hhead
        rcases hhead with hhead | hhead <;> (cases hhead; cases hmark)
    have hc : isMarkSign c = true := by rwa [isMark_of_not hcomment] at hmark
    cases hscan : Literal.scan (c :: cs) with
    | some r =>
      obtain ⟨t, s, ht, -, hread⟩ := exists_of_next_of_scan (p := p) hscan
      rw [hread] at hnext
      cases hnext
      have hquote : c = '\'' := by
        by_contra hne
        rw [scan_of_isMarkSign hc hne] at hscan
        cases hscan
      subst hquote
      refine .inr ⟨String.ofList ('\'' :: t), by simp, ?_⟩
      rw [List.singleton_append, piecesOf_cons, Lexeme.pieces, TokenTree.pieces_literal]
      rfl
    | none =>
      obtain ⟨hsep, hopened, hclosed, -⟩ := of_isMarkSign hc
      rw [next_of_none p (separator_of_not hsep hcomment) (documentation_of_not hcomment) hscan,
        hopened, hclosed, word_of_isMarkSign hc] at hnext
      cases hspacing : mark (c :: cs) with
      | none =>
        rw [hspacing] at hnext
        cases hnext
      | some spacing =>
        rw [hspacing] at hnext
        cases hnext
        refine .inl ⟨c, spacing, rfl, ?_⟩
        rw [List.singleton_append, piecesOf_cons, Lexeme.pieces, TokenTree.pieces_mark]
        rfl

/-- Where a word may be read, nothing else is read but a literal that begins as the word does. -/
theorem isIdentifierStart_of_anyWord {cs after : List Char} (h : anyWord cs = some after) :
    ∃ c rest, cs = c :: rest ∧ isIdentifierStart c = true := by
  unfold anyWord at h
  split at h
  · exact ⟨_, _, rfl, by decide⟩
  · cases cs with
    | nil => cases h
    | cons c rest =>
      rw [Literal.identifier] at h
      split at h
      · rename_i hc
        exact ⟨c, rest, rfl, hc⟩
      · cases h

/-- Whether a word is read behind an apostrophe, so that the two are a lifetime. -/
def EndsLifetime (cs after : List Char) : Prop :=
  anyWord cs = some after ∧
    ¬(after.head? = some '\'' ∨ (after.head? = some '#' ∧ cs.take 2 ≠ ['r', '#']))

theorem mark_apostrophe {cs : List Char} {spacing : Spacing}
    (h : mark ('\'' :: cs) = some spacing) :
    spacing = .joint ∧ ∃ after, EndsLifetime cs after := by
  rw [mark_cons_apostrophe] at h
  obtain ⟨after, hany, h⟩ := Option.bind_eq_some_iff.mp h
  split at h
  · cases h
  · rename_i hnot
    cases h
    exact ⟨rfl, after, hany, hnot⟩

theorem beginsAsWord_of_scan {t r after : List Char} (hscan : Literal.scan t = some [])
    (h : EndsLifetime (t ++ r) after) : beginsAsWord t = true := by
  obtain ⟨hany, hnot⟩ := h
  obtain ⟨c, rest, hcs, hstart⟩ := isIdentifierStart_of_anyWord hany
  unfold Literal.scan at hscan
  split at hscan
  · cases hcs
    exact absurd hstart (by decide)
  · rfl
  · rfl
  · rename_i u
    have : anyWord ('b' :: '\'' :: (u ++ r)) = some ('\'' :: (u ++ r)) := rfl
    cases this.symm.trans hany
    exact absurd (.inl rfl) hnot
  · obtain ⟨u, rfl | rfl⟩ := raw_cases hscan
    · rfl
    · have : anyWord ('b' :: 'r' :: '#' :: (u ++ r)) = some ('#' :: (u ++ r)) := rfl
      cases this.symm.trans hany
      exact absurd (.inr ⟨rfl, by simp⟩) hnot
  · obtain ⟨u, rfl | rfl⟩ := raw_cases hscan
    · rfl
    · have : anyWord ('c' :: 'r' :: '#' :: (u ++ r)) = some ('#' :: (u ++ r)) := rfl
      cases this.symm.trans hany
      exact absurd (.inr ⟨rfl, by simp⟩) hnot
  · obtain ⟨u, rfl | rfl⟩ := raw_cases hscan
    · rfl
    · obtain ⟨u, rfl | rfl⟩ := raw_cases_of_hash hscan
      · cases hany
      · cases hany
  · cases hcs
    exact absurd hstart (by decide)
  · obtain ⟨t', ht, hdigit, -⟩ := Literal.exists_of_number hscan
    rw [List.append_nil] at ht
    subst ht
    have := Literal.head?_append_any hdigit r
    rw [hcs] at this
    have hdigit : c.isDigit = true := this
    rw [not_isDigit_of_isIdentifierStart hstart] at hdigit
    cases hdigit

/-- A word as it is read. -/
theorem isWord_of_anyWord {cs after : List Char} (h : anyWord cs = some after) :
    ∃ t, cs = t ++ after ∧ isWord t = true := by
  have hidentifier : ∀ {cs after : List Char}, Literal.identifier cs = some after →
      ∃ c s, cs = c :: s ++ after ∧ isIdentifierStart c = true ∧
        s.all isIdentifierPart = true := by
    intro cs after h
    cases cs with
    | nil => cases h
    | cons c cs =>
      rw [Literal.identifier] at h
      split at h
      · rename_i hc
        cases h
        refine ⟨c, cs.takeWhile isIdentifierPart, ?_, hc, List.all_takeWhile⟩
        rw [List.cons_append, List.takeWhile_append_dropWhile]
      · cases h
  unfold anyWord at h
  split at h
  · rename_i rest
    obtain ⟨hid, hraw⟩ := Option.filter_eq_some_iff.mp h
    obtain ⟨c, s, rfl, hc, hs⟩ := hidentifier hid
    refine ⟨'r' :: '#' :: c :: s, rfl, ?_⟩
    rw [upTo_append] at hraw
    show (isIdentifier (c :: s) && !isNeverRaw (c :: s)) = true
    rw [hraw, isIdentifier, hc, hs]
    rfl
  · rename_i hno
    obtain ⟨c, s, rfl, hc, hs⟩ := hidentifier h
    refine ⟨c :: s, rfl, ?_⟩
    unfold isWord
    split
    · rename_i rest heq
      rw [heq] at hno
      exact absurd rfl (hno (rest ++ after))
    · rw [isIdentifier, hc, hs]
      rfl

theorem followsApostrophe_of_lexemesFrom {n : Nat} {p : Position} {cs after : List Char}
    {ls : List Lexeme} (h : lexemesFrom n p cs = some ls) (hends : EndsLifetime cs after) :
    FollowsApostrophe (piecesOf ls).head? := by
  obtain ⟨c, cs, rfl, hc⟩ := isIdentifierStart_of_anyWord hends.1
  obtain ⟨m, found, rest, p', ls', rfl, hnext, -, rfl⟩ := exists_next_of_lexemesFrom h
  obtain ⟨hsep, -, hopened, hclosed, hslash, -, -⟩ := of_isIdentifierStart hc
  cases hscan : Literal.scan (c :: cs) with
  | some r =>
    obtain ⟨t, s, ht, htakes, hread⟩ := exists_of_next_of_scan (p := p) hscan
    rw [hread] at hnext
    cases hnext
    refine .inr ⟨String.ofList (c :: t), ?_, ?_⟩
    · rw [String.toList_ofList]
      refine beginsAsWord_of_scan (r := rest) ?_ (ht ▸ hends)
      have := htakes [] rfl
      rwa [List.append_nil] at this
    · rw [List.singleton_append, piecesOf_cons, Lexeme.pieces, TokenTree.pieces_literal]
      rfl
  | none =>
    have hcomment := opensComment_of_ne hslash cs
    rw [next_of_none p (separator_of_not hsep hcomment) (documentation_of_not hcomment) hscan,
      hopened, hclosed, mark_of_isIdentifierStart hc] at hnext
    cases hword : word (c :: cs) with
    | none =>
      rw [hword] at hnext
      cases hnext
    | some after =>
      rw [hword] at hnext
      cases hnext
      refine .inl ⟨String.ofList ((c :: cs).take ((c :: cs).length - rest.length)), ?_⟩
      rw [List.singleton_append, piecesOf_cons, Lexeme.pieces, TokenTree.pieces_word]
      rfl

/-! ## Readable lexemes -/

theorem readable_documentation (inner : Bool) (text : List Char) (s : Span) :
    Readable (TokenTree.piecesOf (documentationTrees inner text s)) := by
  have hliteral : Literal.Takes Literal.scan (Text.literal (String.ofList text)).toList := by
    intro r hr
    rw [scan_literal, Literal.suffix_of_endsToken hr]
  have hcontent : Readable (TokenTree.piecesOf
      [.word ⟨"doc", s⟩, .mark '=' .alone s, .literal (Text.literal (String.ofList text)) s]) := by
    simp only [TokenTree.piecesOf_cons, TokenTree.piecesOf_nil, TokenTree.pieces_word,
      TokenTree.pieces_mark, TokenTree.pieces_literal, List.cons_append, List.nil_append]
    exact ⟨(by decide : Piece.isWord "doc".toList = true), .word _ _,
      (by decide : isMarkSign '=' = true), .alone (by decide) _, hliteral, .literal _ _, trivial⟩
  have hgroup : Readable (TokenTree.piecesOf [.group .bracket
      [.word ⟨"doc", s⟩, .mark '=' .alone s, .literal (Text.literal (String.ofList text)) s] s]) := by
    rw [TokenTree.piecesOf_cons, TokenTree.pieces_group, TokenTree.piecesOf_nil, List.append_nil]
    refine ⟨trivial, .opening _ _, hcontent.append ⟨trivial, .closing _ _, trivial⟩⟩
  have hmark : ∀ c ps, isMarkSign c = true → c ≠ '\'' → Readable ps →
      Readable (.mark c .alone :: ps) :=
    fun c ps hc hne hps => ⟨hc, .alone hne _, hps⟩
  unfold documentationTrees
  cases inner with
  | false => exact hmark '#' _ (by decide) (by decide) hgroup
  | true =>
    exact hmark '#' _ (by decide) (by decide) (hmark '!' _ (by decide) (by decide) hgroup)

theorem sign_of_mark {c : Char} {cs : List Char} {spacing : Spacing}
    (h : mark (c :: cs) = some spacing) (hne : c ≠ '\'') :
    isMark (c :: cs) = true ∧ spacing = if isMark cs then .joint else .alone := by
  unfold mark at h
  split at h
  · rename_i heq
    exact absurd (List.cons.inj heq).1 hne
  · rename_i heq
    cases heq
    split at h
    · rename_i hmark
      cases h
      exact ⟨hmark, rfl⟩
    · cases h
  · cases h

/-- What is read where no separator, comment or literal is. -/
theorem lexeme_of_next {c : Char} {cs rest : List Char} {p : Position} {found : List Lexeme}
    (hsep : separator (c :: cs) = none) (hdoc : documentation (c :: cs) = none)
    (hscan : Literal.scan (c :: cs) = none) (h : next p (c :: cs) = some (found, rest)) :
    (∃ d, found = [.opening d p]) ∨ (∃ d q, found = [.closing d q]) ∨
      (∃ spacing s, found = [.leaf (.mark c spacing s)] ∧ rest = cs ∧
        mark (c :: cs) = some spacing) ∨
      ∃ t s, found = [.leaf (.word ⟨String.ofList t, s⟩)] ∧ isWord t = true := by
  rw [next_of_none p hsep hdoc hscan] at h
  cases hopened : opened c with
  | some d =>
    rw [hopened] at h
    cases h
    exact .inl ⟨d, rfl⟩
  | none =>
  cases hclosed : closed c with
  | some d =>
    rw [hopened, hclosed] at h
    cases h
    exact .inr (.inl ⟨d, _, rfl⟩)
  | none =>
  cases hmark : mark (c :: cs) with
  | some spacing =>
    rw [hopened, hclosed, hmark] at h
    cases h
    exact .inr (.inr (.inl ⟨spacing, _, rfl, rfl, rfl⟩))
  | none =>
  cases hword : word (c :: cs) with
  | some after =>
    rw [hopened, hclosed, hmark, hword] at h
    cases h
    have hany : anyWord (c :: cs) = some rest := by
      unfold word at hword
      split at hword
      · cases hword
      · exact hword
    obtain ⟨t, ht, hw⟩ := isWord_of_anyWord hany
    refine .inr (.inr (.inr ⟨t, .written p (p.advance t), ?_, hw⟩))
    rw [ht, upTo_append]
  | none =>
    rw [hopened, hclosed, hmark, hword] at h
    cases h

/-- A mark meets what is read behind it. -/
theorem meets_of_mark {n : Nat} {p : Position} {c : Char} {cs : List Char} {spacing : Spacing}
    {ls : List Lexeme} (hmark : mark (c :: cs) = some spacing)
    (h : lexemesFrom n p cs = some ls) :
    isMarkSign c = true ∧ Meets (.mark c spacing) (piecesOf ls).head? := by
  by_cases hc : c = '\''
  · subst hc
    obtain ⟨rfl, after, hends⟩ := mark_apostrophe hmark
    refine ⟨by decide, ?_⟩
    rcases followsApostrophe_of_lexemesFrom h hends with ⟨text, hq⟩ | ⟨text, ht, hq⟩
    · rw [hq]
      exact .lifetime text
    · rw [hq]
      exact .quoted ht
  · obtain ⟨hbegins, rfl⟩ := sign_of_mark hmark hc
    have hsign : isMarkSign c = true ∧ ∀ d, cs.head? = some d → c = '/' → d ≠ '/' ∧ d ≠ '*' := by
      unfold isMark at hbegins
      split at hbegins
      · cases hbegins
      · cases hbegins
      · rename_i hslash hstar heq
        cases heq
        refine ⟨hbegins, ?_⟩
        rintro d hd rfl
        cases cs with
        | nil => cases hd
        | cons e cs =>
          cases hd
          constructor
          · rintro rfl
            exact hslash cs rfl rfl
          · rintro rfl
            exact hstar cs rfl rfl
      · cases hbegins
    refine ⟨hsign.1, ?_⟩
    by_cases hjoint : isMark cs = true
    · rw [if_pos hjoint]
      rcases followsMark_of_lexemesFrom h hjoint with ⟨d, spacing, hd, hq⟩ | ⟨text, ht, hq⟩
      · rw [hq]
        exact .sign hc (hsign.2 d hd)
      · rw [hq]
        exact .character hc ht
    · rw [if_neg hjoint]
      exact .alone hc _

theorem piecesOf_map_leaf (ts : List TokenTree) :
    piecesOf (ts.map .leaf) = TokenTree.piecesOf ts := by
  induction ts with
  | nil => rw [TokenTree.piecesOf_nil]; rfl
  | cons t ts ih =>
    rw [List.map_cons, piecesOf_cons, ih, TokenTree.piecesOf_cons]
    rfl

/-- What the lexer reads, it would read again where it stands. -/
theorem readable_of_lexemesFrom {n : Nat} {p : Position} {cs : List Char} {ls : List Lexeme}
    (h : lexemesFrom n p cs = some ls) : Readable (piecesOf ls) := by
  induction n generalizing p cs ls with
  | zero =>
    cases cs with
    | nil =>
      cases h
      exact trivial
    | cons c cs => cases h
  | succ n ih =>
    cases cs with
    | nil =>
      cases h
      exact trivial
    | cons c cs =>
      obtain ⟨m, found, rest, p', ls', hm, hnext, hls', rfl⟩ := exists_next_of_lexemesFrom h
      cases hm
      have hrest := ih hls'
      rw [piecesOf_append]
      cases hsep : separator (c :: cs) with
      | some r =>
        rw [next, hsep] at hnext
        cases hnext
        exact hrest
      | none =>
      cases hdoc : documentation (c :: cs) with
      | some d =>
        rw [next, hsep, hdoc] at hnext
        cases hnext
        rw [piecesOf_map_leaf]
        exact (readable_documentation d.1 d.2.1 _).append hrest
      | none =>
      cases hscan : Literal.scan (c :: cs) with
      | some r =>
        obtain ⟨t, s, -, htakes, hread⟩ := exists_of_next_of_scan (p := p) hscan
        rw [hread] at hnext
        cases hnext
        refine Readable.append ?_ hrest
        rw [piecesOf_cons, Lexeme.pieces, TokenTree.pieces_literal]
        refine ⟨?_, .literal _ _, trivial⟩
        rw [IsSound, String.toList_ofList]
        exact htakes
      | none =>
      rcases lexeme_of_next hsep hdoc hscan hnext with ⟨d, rfl⟩ | ⟨d, q, rfl⟩ |
        ⟨spacing, s, rfl, rfl, hmark⟩ | ⟨t, s, rfl, ht⟩
      · exact ⟨trivial, .opening _ _, hrest⟩
      · exact ⟨trivial, .closing _ _, hrest⟩
      · rw [piecesOf_cons, Lexeme.pieces, TokenTree.pieces_mark]
        obtain ⟨hsign, hmeets⟩ := meets_of_mark hmark hls'
        exact ⟨hsign, hmeets, hrest⟩
      · refine Readable.append ?_ hrest
        rw [piecesOf_cons, Lexeme.pieces, TokenTree.pieces_word]
        refine ⟨?_, .word _ _, trivial⟩
        rw [IsSound, String.toList_ofList]
        exact ht

/-- What the lexer makes of a text is readable. -/
theorem readable_of_tokens {cs : List Char} {ts : List TokenTree} (h : tokens cs = some ts) :
    Readable (TokenTree.piecesOf ts) := by
  obtain ⟨ls, hls, hnest⟩ := Option.bind_eq_some_iff.mp h
  have hpieces := piecesOf_of_nest hnest
  rw [openPieces, List.reverse_nil, TokenTree.piecesOf_nil, List.nil_append] at hpieces
  rw [← hpieces]
  unfold lexemes at hls
  split at hls
  · exact readable_of_lexemesFrom hls
  · exact readable_of_lexemesFrom hls

end CommandBot.Lexer
