import CommandBot.Grammar.Rules
import CommandBot.Bot.Template

/-
  Reading code that is known piece by piece. Each form of the grammar has a law that says what is
  read of a text when its parts are read, with anything behind it: sequences, repetitions, chains of
  fields and calls, statements, paths, types. Nesting is counted by `depth`, and `exists_depth_eq`
  gives a text enough of it for any chain of rules that occurs.
-/

namespace CommandBot.Grammar

open Template TokenTree

section
variable {f : Phrase → Reader} {test : Ahead} {body g h : Syntax} {ts z p q r : List TokenTree}

theorem read_seq (hg : g.read f ts = some (p, z)) (hh : h.read f z = some (q, r)) :
    (Grammar.seq g h).read f ts = some (p ++ q, r) := by
  rw [read_seq_eq, hg, Option.bind_some, hh]
  rfl

theorem loop_of_not {body : Reader} (hts : test ts = false) (n : Nat) :
    loop test body n ts = some ([], ts) := by
  cases n with
  | zero => rfl
  | succ n => rw [loop_succ, hts]; rfl

/-- A repetition that has ended needs no more rounds. -/
theorem loop_mono {body : Reader} {n m : Nat} (hnm : n ≤ m) (hr : test r = false)
    (h : loop test body n ts = some (p, r)) : loop test body m ts = some (p, r) := by
  induction n generalizing m ts p with
  | zero =>
    cases h
    exact loop_of_not hr m
  | succ n ih =>
    obtain ⟨m, rfl⟩ : ∃ k, m = k + 1 := ⟨m - 1, by omega⟩
    rw [loop_succ] at h ⊢
    split at h
    · rename_i htest
      rw [if_pos htest]
      obtain ⟨a, ha, h⟩ := Option.bind_eq_some_iff.mp h
      obtain ⟨b, hb, h⟩ := Option.map_eq_some_iff.mp h
      obtain ⟨b₁, b₂⟩ := b
      cases h
      rw [ha, Option.bind_some, ih (by omega) hb]
      rfl
    · rename_i htest
      rw [if_neg htest]
      exact h

theorem read_whileAhead_nil (hts : test ts = false) :
    (Grammar.whileAhead test body).read f ts = some ([], ts) := loop_of_not hts _

/-- One round and the further ones. -/
theorem read_whileAhead_cons (hts : test ts = true) (hbody : body.read f ts = some (p, z))
    (hlength : z.length < ts.length)
    (hrest : (Grammar.whileAhead test body).read f z = some (q, r)) (hr : test r = false) :
    (Grammar.whileAhead test body).read f ts = some (p ++ q, r) := by
  obtain ⟨n, hn⟩ : ∃ n, ts.length = n + 1 := ⟨ts.length - 1, by omega⟩
  have hrounds : loop test (body.read f) n z = some (q, r) :=
    loop_mono (by omega) hr hrest
  rw [Grammar.read, hn, loop_succ, if_pos hts, hbody, Option.bind_some, hrounds]
  rfl

theorem read_inside {d : Delimiter} {content : List TokenTree} {s : Span}
    (hg : g.read f content = some (p, [])) :
    (Grammar.inside d g).read f (.group d content s :: z) = some ([.group d p s], z) := by
  simp only [Grammar.read, if_true, hg]

theorem read_sign (c : Char) : (Grammar.operator [c]).read f (sign c ++ z) = some (sign c, z) := by
  show readOperator [c] (.mark c .alone .generated :: z) = _
  rw [readOperator, if_pos rfl]
  rfl

theorem read_optional (test : Ahead) (hts : test ts = true) (hg : g.read f ts = some (p, r)) :
    (optional test g).read f ts = some (p, r) := by
  rw [optional, Grammar.read, if_pos hts, hg]

theorem read_optional_not (test : Ahead) (hts : test ts = false) :
    (optional test g).read f ts = some ([], ts) := by
  rw [optional, Grammar.read, hts]
  rfl

theorem read_word (s : String) :
    (word s : Syntax).read f (words [s] ++ z) = some (words [s], z) := by
  simp [word, token, Grammar.read, words, made, Word.made, isWord]

theorem read_pathMark : (op "::" : Syntax).read f (pathMark ++ z) = some (pathMark, z) := rfl

theorem never_atEnd_of_ne_nil (hts : ts ≠ []) : never atEnd ts = true := by
  cases ts with
  | nil => exact absurd rfl hts
  | cons t z => rfl

theorem read_rule {name : Phrase} (h : f name ts = some (p, r)) :
    (Grammar.rule name).read f ts = some (p, r) := h

/-- A list of one item. -/
theorem read_listed_last (hts : ts ≠ []) (hg : g.read f ts = some (p, [])) :
    (listed g).read f ts = some (p, []) := by
  have hnone : (Grammar.ifAhead atEnd .nothing (op ",") : Syntax).read f [] = some ([], []) := rfl
  have hread := read_whileAhead_cons (never_atEnd_of_ne_nil hts) (read_seq hg hnone)
    (List.length_pos_iff.mpr hts) (read_whileAhead_nil rfl) rfl
  rw [List.append_nil, List.append_nil] at hread
  exact hread

/-- A list of one item with a comma behind it. -/
theorem read_listed_one (hts : ts ≠ []) (hg : g.read f ts = some (p, comma)) :
    (listed g).read f ts = some (p ++ comma, []) := by
  have hcomma : (Grammar.ifAhead atEnd .nothing (op ",") : Syntax).read f comma = some (comma, []) :=
    rfl
  have hread := read_whileAhead_cons (never_atEnd_of_ne_nil hts) (read_seq hg hcomma)
    (List.length_pos_iff.mpr hts) (read_whileAhead_nil rfl) rfl
  rw [List.append_nil] at hread
  exact hread

/-! ## Chains of fields and calls -/

theorem postfixes_nil (hts : postfixAhead ts = false) :
    postfixes.read f ts = some ([], ts) := read_whileAhead_nil hts

/-- A field, or the name of a method, in front of further ones. -/
theorem postfixes_member {w : Word} (hw : isName (.word w) = true) (hrest : turbofishAhead z = false)
    (hmore : postfixes.read f z = some (q, r)) (hr : postfixAhead r = false) :
    postfixes.read f (dot ++ .word w :: z) = some (dot ++ .word w :: q, r) := by
  have hts : postfixAhead (dot ++ .word w :: z) = true := rfl
  have hname : selection.read f (.word w :: z) = some ([.word w], z) := by
    have hoptional : (optional turbofishAhead (.seq (op "::") (.rule .arguments)) : Syntax).read f
        z = some ([], z) := by
      rw [optional, Grammar.read, hrest]
      rfl
    have htoken : (token (fun t => isName t || isWord "await" t) : Syntax).read f
        (.word w :: z) = some ([.word w], z) := by
      simp [token, Grammar.read, hw]
    have hselection := read_seq htoken hoptional
    exact read_seq (p := []) rfl hselection
  have hbody : ((op ".").seq selection).read f (dot ++ .word w :: z) =
      some (dot ++ [.word w], z) := read_seq (p := dot) rfl hname
  rw [postfixes] at hmore ⊢
  refine read_whileAhead_cons (p := dot ++ [.word w]) hts ?_ ?_ hmore hr
  · exact hbody
  · show z.length < z.length + 2
    omega

theorem postfixes_call {content : List TokenTree} {s : Span}
    (hcontent : (listed expression).read f content = some (p, []))
    (hmore : postfixes.read f z = some (q, r)) (hr : postfixAhead r = false) :
    postfixes.read f (.group .parenthesis content s :: z) =
      some (.group .parenthesis p s :: q, r) := by
  have hts : postfixAhead (.group .parenthesis content s :: z) = true := rfl
  have hbody := read_inside (d := .parenthesis) (s := s) (z := z) hcontent
  rw [postfixes] at hmore ⊢
  exact read_whileAhead_cons (p := [.group .parenthesis p s]) hts hbody (Nat.lt_succ_self _) hmore hr

theorem postfixes_try (hmore : postfixes.read f z = some (q, r)) (hr : postfixAhead r = false) :
    postfixes.read f (sign '?' ++ z) = some (sign '?' ++ q, r) := by
  have hread : (op "?").read f (sign '?' ++ z) = some (sign '?', z) := read_sign '?'
  rw [postfixes] at hmore ⊢
  exact read_whileAhead_cons rfl hread (Nat.lt_succ_self _) hmore hr

end

/-! ## Expressions -/

section
variable {n : Nat} {b : Bool} {ts z p q r : List TokenTree}

/-- Whether an expression goes on behind an operand. -/
def goesOn : Ahead := anyOf [rangeAhead, wordAhead "as", binaryAhead]

/-- An operand that no operator follows is an expression. -/
theorem expression_of_operand (h : readRule rules n (.operand b) ts = some (p, r))
    (hr : goesOn r = false) : readRule rules (n + 1) (.expression b) ts = some (p, r) := by
  have htail : (binaryTail b).read (readRule rules n) r = some ([], r) := read_whileAhead_nil hr
  have hread := read_seq (g := .rule (.operand b)) h htail
  rw [List.append_nil] at hread
  exact hread

/-- Whether an operand begins with a path, rather than with a sign or a word of its own. -/
def pathStart : Ahead :=
  both expressionPathAhead
    (never (anyOf [operatorAhead "#", operatorAhead "&", operatorAhead "*", operatorAhead "!",
      operatorAhead "-", rangeAhead, operatorAhead "|", wordAhead "for", blockLikeAhead,
      first closureWord, wordAhead "let", wordAhead "break", wordAhead "continue",
      first (isOneOf ["return", "yield", "become"]), wordAhead "_", first isLiteral,
      groupAhead .parenthesis, groupAhead .bracket]))

/-- A path with a chain of fields and calls behind it is an operand. -/
theorem operand_of_path (hts : pathStart ts = true)
    (hpath : (pathOperand b).read (readRule rules n) ts = some (p, z))
    (hmore : postfixes.read (readRule rules n) z = some (q, r)) :
    readRule rules (n + 1) (.operand b) ts = some (p ++ q, r) := by
  simp only [pathStart, both, never, anyOf, List.any_cons, List.any_nil, Bool.and_eq_true,
    Bool.not_eq_true', Bool.or_eq_false_iff] at hts
  obtain ⟨hstart, h⟩ := hts
  have hread := read_seq hpath hmore
  simp only [Grammar.read] at hread
  simp [readRule, rules, operandRule, cases, Grammar.read, both, outerAttributes, loop_of_not, h,
    hstart, hread]

/-- A path that is not the beginning of a macro call or of a structured value. -/
theorem pathOperand_of_path {f : Phrase → Reader} (h : f .expressionPath ts = some (p, z))
    (hbang : operatorAhead "!" z = false) (hbrace : groupAhead .brace z = false) :
    (pathOperand b).read f ts = some (p, z) := by
  simp [pathOperand, Grammar.read, h, cases, both, bangAhead, hbang, hbrace]

/-- A variable with a chain of fields and calls behind it. -/
theorem operand_of_word (s : String) (hmore : postfixes.read (readRule rules n) z = some (q, r))
    (hts : pathStart (words [s] ++ z) = true)
    (hpath : (pathOperand b).read (readRule rules n) (words [s] ++ z) =
      some (words [s], z)) :
    readRule rules (n + 1) (.operand b) (words [s] ++ z) = some (words [s] ++ q, r) :=
  operand_of_path hts hpath hmore

/-- Whether a statement begins as an expression. -/
def expressionStart : Ahead :=
  never (anyOf [operatorAhead "#", operatorAhead ";", wordAhead "let", itemAhead, braceCallAhead,
    blockLikeAhead])

theorem statement_of_expression (hts : expressionStart ts = true)
    (h : readRule rules n (.expression true) ts = some (p, r)) (hr : operatorAhead ";" r = false) :
    readRule rules (n + 1) .statement ts = some (p, r) := by
  simp only [expressionStart, never, anyOf, List.any_cons, List.any_nil, 
    Bool.not_eq_true', Bool.or_eq_false_iff] at hts
  simp [readRule, rules, statementRule, cases, Grammar.read, outerAttributes, loop_of_not, hts,
    maybe, optional, expression, h, hr]

/-- Whether a statement begins as an expression that ends with its own block. -/
def blockLikeStart : Ahead :=
  both blockLikeAhead
    (never (anyOf [operatorAhead "#", operatorAhead ";", wordAhead "let", itemAhead, braceCallAhead]))

theorem statement_of_blockLike (hts : blockLikeStart ts = true)
    (h : readRule rules n .blockLike ts = some (p, r))
    (hr : either selectionAhead (operatorAhead "?") r = false) (hsemi : operatorAhead ";" r = false) :
    readRule rules (n + 1) .statement ts = some (p, r) := by
  simp only [blockLikeStart, both, never, anyOf, List.any_cons, List.any_nil, Bool.and_eq_true,
    Bool.not_eq_true', Bool.or_eq_false_iff] at hts
  obtain ⟨hstart, hsign, hsemicolon, hlet, hitem, hcall, -⟩ := hts
  have hread := read_seq (read_rule h)
    (read_seq (g := continuation) (h := maybe ";") (read_optional_not _ hr) (read_optional_not _ hsemi))
  rw [List.append_nil, List.append_nil] at hread
  have hcases : (cases
      [(operatorAhead ";", op ";"),
       (wordAhead "let", letStatement),
       (itemAhead, .rule .item),
       (braceCallAhead, all [braceCall, continuation, maybe ";"]),
       (blockLikeAhead, all [.rule .blockLike, continuation, maybe ";"])]
      (.seq expression (maybe ";")) : Syntax).read (readRule rules n) ts = some (p, r) := by
    simp only [cases, Grammar.read, hsemicolon, hlet, hitem, hcall, hstart, if_true]
    exact hread
  exact read_seq (g := outerAttributes) (read_whileAhead_nil hsign) hcases

/-! ## Statements -/

/-- What the braces of a body hold. -/
def statements : Syntax := .whileAhead (never atEnd) (.rule .statement)

section
variable {f : Phrase → Reader}

theorem read_statements_cons {s : List TokenTree} (hs : s ≠ []) (h : f .statement (s ++ z) = some (s, z))
    (hmore : statements.read f z = some (q, [])) :
    statements.read f (s ++ z) = some (s ++ q, []) := by
  refine read_whileAhead_cons (never_atEnd_of_ne_nil fun hnil => hs (List.append_eq_nil_iff.mp hnil).1)
    (read_rule h) ?_ hmore rfl
  rw [List.length_append]
  exact Nat.lt_add_of_pos_left (List.length_pos_iff.mpr hs)

theorem read_statements_last (hts : ts ≠ []) (h : f .statement ts = some (ts, [])) :
    statements.read f ts = some (ts, []) := by
  have hread := read_statements_cons (z := []) hts (by rw [List.append_nil]; exact h)
    (read_whileAhead_nil rfl)
  rw [List.append_nil] at hread
  exact hread

end

theorem exists_depth_eq (ts : List TokenTree) (hne : ts ≠ []) : ∃ n, depth ts = n + 16 := by
  cases ts with
  | nil => exact absurd rfl hne
  | cons t rest =>
    have ht := weight_pos t
    refine ⟨depth (t :: rest) - 16, ?_⟩
    rw [depth, weightOf]
    omega

/-- A body of one expression. -/
theorem readBy_statements_of_operand (hne : ts ≠ []) (hts : expressionStart ts = true)
    (h : ∀ n, depth ts = n + 16 → readRule rules (n + 14) (.operand true) ts = some (ts, [])) :
    readBy statements ts = some (ts, []) := by
  obtain ⟨n, hn⟩ := exists_depth_eq ts hne
  rw [readBy, hn]
  exact read_statements_last hne
    (statement_of_expression hts (expression_of_operand (h n hn) rfl) rfl)

end

/-! ## Paths -/

section
variable {f : Phrase → Reader} {n : Nat} {w : Word} {z p q r : List TokenTree}

/-- A name is no word of the language. -/
theorem not_isOneOf_of_isName {ss : List String} (hss : ∀ s ∈ ss, s ∈ keywords)
    (hw : isName (.word w) = true) : isOneOf ss (.word w) = false := by
  rw [isOneOf, List.contains_eq_mem, decide_eq_false_iff_not]
  intro hmem
  rw [isName, Bool.not_eq_true', List.contains_eq_mem, decide_eq_false_iff_not] at hw
  exact hw (hss _ hmem)

theorem not_isWord_of_isName {s : String} (hs : s ∈ keywords) (hw : isName (.word w) = true) :
    isWord s (.word w) = false := by
  rw [isWord, beq_eq_false_iff_ne]
  rintro rfl
  rw [isName, Bool.not_eq_true', List.contains_eq_mem, decide_eq_false_iff_not] at hw
  exact hw hs

theorem rootWord_of_isName (hw : isName (.word w) = true) (z : List TokenTree) :
    rootWord (.word w :: z) = false :=
  not_isOneOf_of_isName (by decide) hw

theorem segmentWord_of_isName (hw : isName (.word w) = true) : segmentWord (.word w) = true := by
  rw [isName] at hw
  rw [segmentWord, hw, Bool.true_or]

/-- A name is a segment of a path if no arguments follow it. -/
theorem expressionSegment_name (hw : isName (.word w) = true) (hrest : operatorAhead "::" z = false) :
    expressionSegment.read f (.word w :: z) = some ([.word w], z) := by
  simp [expressionSegment, Grammar.read, rootWord_of_isName hw, token, segmentWord_of_isName hw,
    cases, turbofishAhead, both, hrest]

theorem segments_nil (one : Syntax) (hrest : operatorAhead "::" z = false) :
    (segments one).read f z = some ([], z) := by
  refine read_whileAhead_nil ?_
  rw [both, hrest, Bool.false_and]

/-- A path that begins with a type in angle brackets and has one further segment. -/
theorem expressionPath_qualified {ts : List TokenTree} (hts : operatorAhead "<" ts = true)
    (hq : qualification.read (readRule rules n) ts = some (q, .word w :: z))
    (hw : isName (.word w) = true) (hrest : operatorAhead "::" z = false) :
    readRule rules (n + 1) .expressionPath ts = some (q ++ [.word w], z) := by
  have hfirst : (Grammar.ifAhead (operatorAhead "<") qualification (maybe "::")).read
      (readRule rules n) ts = some (q, .word w :: z) := by
    rw [Grammar.read, if_pos hts, hq]
  have hsegments := read_seq (expressionSegment_name (f := readRule rules n) hw hrest)
    (segments_nil expressionSegment hrest)
  exact read_seq hfirst hsegments

/-- A name begins a path, whatever follows it. -/
theorem pathStart_name (hw : isName (.word w) = true) (z : List TokenTree) :
    pathStart (.word w :: z) = true := by
  have hone : ∀ ss, (∀ s ∈ ss, s ∈ keywords) → isOneOf ss (.word w) = false :=
    fun ss hss => not_isOneOf_of_isName hss hw
  have hword : ∀ s, s ∈ keywords → isWord s (.word w) = false := fun s hs => not_isWord_of_isName hs hw
  have hfirst : ∀ test : TokenTree → Bool, first test (.word w :: z) = test (.word w) := fun _ => rfl
  have hoperator : ∀ c cs, marks (c :: cs) (.word w :: z) = false := by
    intro c cs
    cases cs <;> rfl
  have hlifetime : lifetimeAhead (.word w :: z) = false := rfl
  have hclosure : closureWord (.word w) = false := hone _ (by decide)
  have hloop : isOneOf blockLikeWords (.word w) = false := hone _ (by decide)
  have hblock : isOneOf ["unsafe", "const", "try"] (.word w) = false := hone _ (by decide)
  have hleave : isOneOf ["return", "yield", "become"] (.word w) = false := hone _ (by decide)
  have htruth : isOneOf ["true", "false"] (.word w) = false := hone _ (by decide)
  have hfor := hword "for" (by decide)
  have hlet := hword "let" (by decide)
  have hbreak := hword "break" (by decide)
  have hcontinue := hword "continue" (by decide)
  have hany := hword "_" (by decide)
  simp [pathStart, both, never, anyOf, expressionPathAhead, hfirst, segmentWord_of_isName hw,
    operatorAhead, hoperator, rangeAhead, wordAhead, blockLikeAhead, groupAhead, isGroup, hlifetime,
    hclosure, hloop, hblock, hleave, isLiteral, htruth, hfor, hlet, hbreak, hcontinue, hany]

/-- The call of a macro by its name. -/
theorem readBy_macroCall (hw : isName (.word w) = true) (d : Delimiter) (content : List TokenTree)
    (s e : Span) :
    readBy expression [.word w, .mark '!' .alone s, .group d content e] =
      some ([.word w, .mark '!' .alone s, .group d content e], []) := by
  obtain ⟨n, hn⟩ := exists_depth_eq [.word w, .mark '!' .alone s, .group d content e]
    (List.cons_ne_nil _ _)
  have hsegments := read_seq (expressionSegment_name (f := readRule rules (n + 13))
      (z := [.mark '!' .alone s, .group d content e]) hw rfl) (segments_nil expressionSegment rfl)
  have hname : readRule rules (n + 14) .expressionPath [.word w, .mark '!' .alone s, .group d content e] =
      some ([.word w], [.mark '!' .alone s, .group d content e]) :=
    read_seq (g := .ifAhead (operatorAhead "<") qualification (maybe "::")) (p := []) rfl hsegments
  have hcall : (cases
      [(both bangAhead (second (first isAnyGroup)), callArguments),
       (fun ts => true && groupAhead .brace ts, .inside .brace (listed fieldValue))]
      .nothing : Syntax).read (readRule rules (n + 14)) [.mark '!' .alone s, .group d content e] =
        some ([.mark '!' .alone s, .group d content e], []) := rfl
  have hoperand := operand_of_path (pathStart_name hw _) (read_seq (read_rule hname) hcall)
    (postfixes_nil rfl)
  rw [readBy, hn]
  exact expression_of_operand hoperand rfl

/-- What may stand behind a type. -/
def typeEnd : Ahead :=
  anyOf [atEnd, groupAhead .brace, operatorAhead ",", operatorAhead ">", wordAhead "as"]

/-- Tokens that are read as a type, before whatever may stand behind one. -/
def ReadsAsType (plus : Bool) (ts : List TokenTree) : Prop :=
  ∀ n z, depth ts ≤ n → typeEnd z = true →
    readRule rules n (.type plus) (ts ++ z) = some (ts, z)

/-- Nothing that may stand behind a type continues one. -/
theorem not_continues_of_typeEnd (h : typeEnd z = true) :
    operatorAhead "<" z = false ∧ operatorAhead "::" z = false ∧
      operatorAhead "!" z = false ∧ operatorAhead "+" z = false ∧
        groupAhead .parenthesis z = false := by
  cases z with
  | nil => exact ⟨rfl, rfl, rfl, rfl, rfl⟩
  | cons t z =>
    cases t with
    | word w => exact ⟨rfl, rfl, rfl, rfl, rfl⟩
    | literal text s => exact ⟨rfl, rfl, rfl, rfl, rfl⟩
    | group d content s => cases d <;> first | exact ⟨rfl, rfl, rfl, rfl, rfl⟩ | cases h
    | mark c spacing s =>
      have hc : ',' = c ∨ '>' = c := by
        simpa [typeEnd, anyOf, atEnd, groupAhead, wordAhead, first, isGroup, isWord, operatorAhead,
          marks] using h
      rcases hc with rfl | rfl <;> cases spacing <;> exact ⟨rfl, rfl, rfl, rfl, rfl⟩

/-- A type in angle brackets in front of a path. -/
theorem qualification_type {T : List TokenTree}
    (hT : f (.type true) (T ++ (sign '>' ++ (pathMark ++ z))) =
      some (T, sign '>' ++ (pathMark ++ z))) :
    qualification.read f (sign '<' ++ (T ++ (sign '>' ++ (pathMark ++ z)))) =
      some (sign '<' ++ (T ++ (sign '>' ++ pathMark)), z) := by
  have htype : type.read f (T ++ (sign '>' ++ (pathMark ++ z))) =
      some (T, sign '>' ++ (pathMark ++ z)) := hT
  have hclose : (all [op ">", op "::"] : Syntax).read f (sign '>' ++ (pathMark ++ z)) =
      some (sign '>' ++ pathMark, z) := read_seq (read_sign '>') read_pathMark
  have hread := read_seq (read_sign '<') (read_seq htype
    (read_seq (g := optional (wordAhead "as") (.seq (word "as") (.rule .path)))
      (read_optional_not (wordAhead "as") rfl) hclose))
  exact hread

/-- A type as seen through a trait in front of a path. -/
theorem qualification_as {T P : List TokenTree}
    (hT : f (.type true) (T ++ (words ["as"] ++ (P ++ (sign '>' ++ (pathMark ++ z))))) =
      some (T, words ["as"] ++ (P ++ (sign '>' ++ (pathMark ++ z)))))
    (hP : f .path (P ++ (sign '>' ++ (pathMark ++ z))) =
      some (P, sign '>' ++ (pathMark ++ z))) :
    qualification.read f
        (sign '<' ++ (T ++ (words ["as"] ++ (P ++ (sign '>' ++ (pathMark ++ z)))))) =
      some (sign '<' ++ (T ++ (words ["as"] ++ (P ++ (sign '>' ++ pathMark)))), z) := by
  have htype : type.read f (T ++ (words ["as"] ++ (P ++ (sign '>' ++ (pathMark ++ z))))) =
      some (T, words ["as"] ++ (P ++ (sign '>' ++ (pathMark ++ z)))) := hT
  have hpath : (Grammar.rule .path : Syntax).read f (P ++ (sign '>' ++ (pathMark ++ z))) =
      some (P, sign '>' ++ (pathMark ++ z)) := hP
  have hclose : (all [op ">", op "::"] : Syntax).read f (sign '>' ++ (pathMark ++ z)) =
      some (sign '>' ++ pathMark, z) := read_seq (read_sign '>') read_pathMark
  have has := read_seq (read_word "as") hpath
  have hread := read_seq (read_sign '<') (read_seq htype (read_seq (read_optional (wordAhead "as") rfl has)
    hclose))
  rw [List.append_assoc] at hread
  exact hread

end

end CommandBot.Grammar
