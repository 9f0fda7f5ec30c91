import CommandBot.Proofs.LiteralScan
import CommandBot.Proofs.Printing

/-
  The rules of the source language are tidy. Each rule is looked at by itself, after the phrases
  that several rules share; a token prints as it is, and so it must not be a mark. `keeps_readBy`:
  whatever is read by a tidy grammar over these rules prints as readable pieces.
-/

namespace CommandBot.Literal

/-- Decimal digits are a literal. -/
theorem takes_digits {ds : List Char} (hne : ds ≠ []) (h : ∀ d ∈ ds, d.isDigit = true) :
    Takes scan ds := by
  have hhead : ds.head?.any Char.isDigit = true := by
    cases ds with
    | nil => exact absurd rfl hne
    | cons d ds => exact h d List.mem_cons_self
  have hbreak : ds.all isDigitOrBreak = true := by
    rw [List.all_eq_true]
    intro d hd
    rw [isDigitOrBreak, h d hd, Bool.true_or]
  have hdrop : ds.dropWhile isDigitOrBreak = [] := by
    have := dropWhile_append_of_all hbreak []
    rwa [List.append_nil] at this
  have hfraction : fraction ds = none := by
    rw [fraction_of_no_point hhead (by simp [hdrop]), hdrop]
    rfl
  have hbase : ¬namesBase ds = true := by
    intro hbase
    unfold namesBase at hbase
    split at hbase
    · rename_i d _
      have hd := h d (by simp)
      simp only [Bool.and_eq_true, Bool.or_eq_true, beq_iff_eq] at hbase
      rcases hbase.2 with (rfl | rfl) | rfl <;> exact absurd hd (by decide)
    · cases hbase
  have hvalue : ∀ {d : Char}, d.isDigit = true → Text.hexValue d < 10 := by
    intro d hd
    rw [Char.isDigit, Bool.and_eq_true, decide_eq_true_eq, decide_eq_true_eq] at hd
    have hle : d.toNat ≤ 57 := UInt32.le_iff_toNat_le.mp hd.2
    have hrange : '0' ≤ d ∧ d ≤ '9' := hd
    have hzero : '0'.toNat = 48 := rfl
    rw [Text.hexValue, if_pos hrange, hzero]
    omega
  have hdigits : ∀ {cs : List Char} (seen : Bool), (∀ d ∈ cs, d.isDigit = true) →
      (seen = true ∨ cs ≠ []) → digitsOf 10 seen cs = some [] := by
    intro cs
    induction cs with
    | nil =>
      intro seen _ hseen
      rw [digitsOf, if_pos (hseen.resolve_right fun h => h rfl)]
    | cons d cs ih =>
      intro seen hall _
      have hd := hall d List.mem_cons_self
      rw [digitsOf, if_pos hd, if_pos (hvalue hd)]
      exact ih true (fun e he => hall e (List.mem_cons_of_mem _ he)) (.inl rfl)
  have hscan : scan ds = some [] := by
    rw [scan_of_isDigit hhead, number, hfraction, whole_of_not_namesBase hbase,
      hdigits false h (.inr hne)]
    rfl
  obtain ⟨t, ht, htakes⟩ := exists_of_scan hscan
  rw [List.append_nil] at ht
  rwa [ht]

end CommandBot.Literal

namespace CommandBot.Grammar

open TokenTree Piece

variable {closing : Bool}

/-! ## Single tokens -/

/-- A test that no mark passes. -/
def PassesNoMark (test : TokenTree → Bool) : Prop := ∀ c spacing s, test (.mark c spacing s) = false

@[simp] theorem passesNoMark_isWord (s : String) : PassesNoMark (isWord s) := fun _ _ _ => rfl

@[simp] theorem passesNoMark_isOneOf (ss : List String) : PassesNoMark (isOneOf ss) :=
  fun _ _ _ => rfl

@[simp] theorem passesNoMark_isAnyWord : PassesNoMark isAnyWord := fun _ _ _ => rfl

@[simp] theorem passesNoMark_isName : PassesNoMark isName := fun _ _ _ => rfl

@[simp] theorem passesNoMark_isAnyGroup : PassesNoMark isAnyGroup := fun _ _ _ => rfl

@[simp] theorem passesNoMark_isLiteral : PassesNoMark isLiteral := fun _ _ _ => rfl

@[simp] theorem passesNoMark_isText : PassesNoMark isText := fun _ _ _ => rfl

@[simp] theorem passesNoMark_plainSegment : PassesNoMark plainSegment := fun _ _ _ => rfl

@[simp] theorem passesNoMark_segmentWord : PassesNoMark segmentWord := fun _ _ _ => rfl

@[simp] theorem passesNoMark_closureWord : PassesNoMark closureWord := fun _ _ _ => rfl

@[simp] theorem passesNoMark_nameOr (s : String) :
    PassesNoMark fun t => isName t || isWord s t := fun _ _ _ => rfl

/-- A token that is no mark is readable alone, wherever it was read. -/
theorem readable_single {t : TokenTree} (hplain : ∀ c spacing s, t ≠ .mark c spacing s)
    {rest : List Piece} (h : Readable (t.pieces ++ rest)) : Readable (piecesOf [t]) := by
  rw [piecesOf_cons, piecesOf_nil, List.append_nil]
  cases t with
  | word w =>
    rw [pieces_word] at h ⊢
    exact ⟨h.1, .word _ _, trivial⟩
  | mark c spacing s => exact absurd rfl (hplain c spacing s)
  | literal text s =>
    rw [pieces_literal] at h ⊢
    exact ⟨h.1, .literal _ _, trivial⟩
  | group d content s =>
    rw [pieces_group, List.cons_append, List.append_assoc] at h
    rw [pieces_group]
    have hcontent := readable_of_closing h.2.2
    exact ⟨trivial, .opening d _, hcontent.append ⟨trivial, .closing d _, trivial⟩⟩

@[simp] theorem tidy_token {test : TokenTree → Bool} (h : PassesNoMark test) :
    (token test).Tidy closing := by
  intro t p hp rest hread
  obtain ⟨htest, hp⟩ := Option.ite_none_right_eq_some.mp hp
  cases hp
  refine readable_single ?_ hread
  rintro c spacing s rfl
  rw [h c spacing s] at htest
  cases htest

@[simp] theorem tidy_word (s : String) : (word s).Tidy closing := tidy_token (passesNoMark_isWord s)

@[simp] theorem tidy_name : name.Tidy closing := tidy_token passesNoMark_isName

@[simp] theorem tidy_anyWord : anyWord.Tidy closing := tidy_token passesNoMark_isAnyWord

@[simp] theorem tidy_anyGroup : anyGroup.Tidy closing := tidy_token passesNoMark_isAnyGroup

@[simp] theorem tidy_op (s : String) : (op s).Tidy closing ↔ '\'' ∉ s.toList := by
  rw [op, Tidy]
  simp

/-! ## Numbers of fields -/

theorem readable_index {cs : List Char} {i : String} (h : index? cs = some i) :
    (Piece.literal i).IsSound := by
  obtain ⟨n, -, hn⟩ := Option.bind_eq_some_iff.mp h
  obtain ⟨-, hn⟩ := Option.ite_none_right_eq_some.mp hn
  cases hn
  show Literal.Takes Literal.scan (String.ofList (Nat.toDigits 10 n)).toList
  rw [String.toList_ofList]
  exact Literal.takes_digits Nat.toDigits_ne_nil
    fun d hd => Nat.isDigit_of_mem_toDigits (by decide) (by decide) hd

theorem readable_literal {text : String} (h : (Piece.literal text).IsSound) (s : Span) :
    Readable (piecesOf [.literal text s]) := by
  rw [piecesOf_cons, piecesOf_nil, pieces_literal]
  exact ⟨h, .literal _ _, trivial⟩

@[simp] theorem tidy_fieldName : fieldName.Tidy closing := by
  intro t p hp rest hread
  dsimp only at hp
  split at hp
  · obtain ⟨-, hp⟩ := Option.ite_none_right_eq_some.mp hp
    cases hp
    exact readable_single (fun _ _ _ h => nomatch h) hread
  · obtain ⟨i, hi, rfl⟩ := Option.map_eq_some_iff.mp hp
    exact readable_literal (readable_index hi) _
  · cases hp

@[simp] theorem tidy_fieldNumber : Tidy closing (.leaf fieldNumber) := by
  intro t p hp rest hread
  unfold fieldNumber at hp
  split at hp
  · rename_i text s
    split at hp
    · obtain ⟨i, hi, rfl⟩ := Option.map_eq_some_iff.mp hp
      exact readable_literal (readable_index hi) s
    · obtain ⟨i, hi, hp⟩ := Option.bind_eq_some_iff.mp hp
      have hpoint : Readable (piecesOf [.literal i s, .mark '.' .alone s]) :=
        readable_append (readable_literal (readable_index hi) s)
          (readable_alone (by decide) (by decide) s)
      split at hp
      · cases hp
        exact hpoint
      · obtain ⟨j, hj, rfl⟩ := Option.map_eq_some_iff.mp hp
        exact readable_append hpoint (readable_literal (readable_index hj) s)
  · cases hp

/-! ## Shared phrases -/

@[simp] theorem tidy_maybeWord (s : String) : (maybeWord s).Tidy closing := by
  simp [maybeWord]

@[simp] theorem tidy_maybe (s : String) : (maybe s).Tidy closing ↔ '\'' ∉ s.toList := by
  rw [maybe, tidy_optional, tidy_op]

@[simp] theorem tidy_literal : literal.Tidy closing := by
  simp [literal]

@[simp] theorem tidy_listed (item : Syntax) : (listed item).Tidy closing ↔ item.Tidy false := by
  simp [listed, isMembers]

@[simp] theorem tidy_type : type.Tidy closing := trivial

@[simp] theorem tidy_typeNoPlus : typeNoPlus.Tidy closing := trivial

@[simp] theorem tidy_expression : expression.Tidy closing := trivial

@[simp] theorem tidy_condition : condition.Tidy closing := trivial

@[simp] theorem tidy_plainPath : plainPath.Tidy closing := by
  simp [plainPath, all]

@[simp] theorem tidy_attributeContent : attributeContent.Tidy closing := by
  simp [attributeContent, cases]

@[simp] theorem tidy_outerAttribute : outerAttribute.Tidy closing := by
  simp [outerAttribute]

@[simp] theorem tidy_innerAttribute : innerAttribute.Tidy closing := by
  simp [innerAttribute, all]

@[simp] theorem tidy_outerAttributes : outerAttributes.Tidy closing := by
  simp [outerAttributes]

@[simp] theorem tidy_innerAttributes : innerAttributes.Tidy closing := by
  simp [innerAttributes]

@[simp] theorem tidy_block : block.Tidy closing := by
  simp [block]

@[simp] theorem tidy_visibility : visibility.Tidy closing := by
  simp [visibility]

@[simp] theorem tidy_callArguments : callArguments.Tidy closing := by
  simp [callArguments]

/-! ## Types -/

@[simp] theorem tidy_output (plus : Bool) : (output plus).Tidy closing := by
  simp [output]

@[simp] theorem tidy_callTypes : callTypes.Tidy closing := by
  simp [callTypes, all]

@[simp] theorem tidy_segments (one : Syntax) :
    (segments one).Tidy closing ↔ one.Tidy false := by
  simp [segments, isMembers]

@[simp] theorem tidy_qualification : qualification.Tidy closing := by
  simp [qualification, all]

@[simp] theorem tidy_segment : segment.Tidy closing := by
  simp [segment, cases]

theorem tidy_path : path.Tidy closing := by
  simp [path]

@[simp] theorem tidy_constant : constant.Tidy closing := by
  simp [constant]

@[simp] theorem tidy_boundsUntil (stop : Ahead) (one : Syntax) :
    (boundsUntil stop one).Tidy closing ↔ one.Tidy false := by
  simp [boundsUntil, isMembers]

@[simp] theorem tidy_argument : argument.Tidy closing := by
  simp [argument, cases]

theorem tidy_arguments : arguments.Tidy closing := by
  simp [arguments, all]

@[simp] theorem tidy_binder : binder.Tidy closing := by
  simp [binder, all]

@[simp] theorem tidy_maybeBinder : maybeBinder.Tidy closing := by
  simp [maybeBinder]

@[simp] theorem tidy_traitBound : traitBound.Tidy closing := by
  simp [traitBound, all]

theorem tidy_bound : bound.Tidy closing := by
  simp [bound, captures, cases, all]

@[simp] theorem tidy_furtherBounds : furtherBounds.Tidy closing := by
  simp [furtherBounds]

@[simp] theorem tidy_more (plus : Bool) : (more plus).Tidy closing := by
  cases plus <;> simp [more]

@[simp] theorem tidy_bounds (plus : Bool) : (bounds plus).Tidy closing := by
  cases plus <;> simp [bounds]

@[simp] theorem tidy_maybeAbi : maybeAbi.Tidy closing := by
  simp [maybeAbi, abi]

@[simp] theorem tidy_functionType : functionType.Tidy closing := by
  simp [functionType, functionArgument, all]

@[simp] theorem tidy_enclosedTypes : enclosedTypes.Tidy closing := by
  simp [enclosedTypes, cases]

theorem tidy_typeRule (plus : Bool) : (typeRule plus).Tidy closing := by
  simp [typeRule, pathType, cases, all]

@[simp] theorem tidy_lifetimeBounds : lifetimeBounds.Tidy closing := by
  simp [lifetimeBounds]

@[simp] theorem tidy_generics : generics.Tidy closing := by
  simp [generics, parameter, cases, all]

theorem tidy_whereRule : whereRule.Tidy closing := by
  simp [whereRule, predicate, all]

/-! ## Patterns -/

theorem tidy_expressionPathRule : expressionPathRule.Tidy closing := by
  simp [expressionPathRule, expressionSegment, cases]

@[simp] theorem tidy_rangeSign : rangeSign.Tidy closing := by
  simp [rangeSign, cases]

@[simp] theorem tidy_patternBound : patternBound.Tidy closing := by
  simp [patternBound, cases]

@[simp] theorem tidy_patternRange : patternRange.Tidy closing := by
  simp [patternRange]

@[simp] theorem tidy_patternBinding : patternBinding.Tidy closing := by
  simp [patternBinding]

@[simp] theorem tidy_pathPattern : pathPattern.Tidy closing := by
  simp [pathPattern, patternField, cases, all]

theorem tidy_alternativeRule : alternativeRule.Tidy closing := by
  simp [alternativeRule, cases, all]

theorem tidy_patternRule : patternRule.Tidy closing := by
  simp [patternRule, all]

/-! ## Expressions -/

theorem tidy_cases {gs : List (Ahead × Syntax)} {otherwise : Syntax}
    (h : ∀ g ∈ gs, g.2.Tidy closing) (h' : otherwise.Tidy closing) :
    (Grammar.cases gs otherwise).Tidy closing := by
  induction gs with
  | nil => exact h'
  | cons g gs ih =>
    exact ⟨h g List.mem_cons_self, ih fun g' hg => h g' (List.mem_cons_of_mem _ hg)⟩

@[simp] theorem tidy_binaryOperator : binaryOperator.Tidy closing := by
  refine tidy_cases (fun g hg => ?_) trivial
  obtain ⟨s, hs, rfl⟩ := List.mem_map.mp hg
  rw [tidy_op]
  have hall : ∀ s ∈ binaryOperators, '\'' ∉ s.toList := by decide
  exact hall s hs

@[simp] theorem tidy_upperBound (braces : Bool) : (upperBound braces).Tidy closing := by
  simp [upperBound]

@[simp] theorem tidy_binaryTail (braces : Bool) : (binaryTail braces).Tidy closing := by
  simp [binaryTail, cases]

theorem tidy_expressionRule (braces : Bool) : (expressionRule braces).Tidy closing := by
  simp [expressionRule]

@[simp] theorem tidy_postfixes : postfixes.Tidy closing := by
  simp [postfixes, selection, cases, all]

@[simp] theorem tidy_pathOperand (braces : Bool) : (pathOperand braces).Tidy closing := by
  simp [pathOperand, fieldValue, cases]

@[simp] theorem tidy_continuation : continuation.Tidy closing := by
  simp [continuation]

theorem tidy_blockLikeRule : blockLikeRule.Tidy closing := by
  simp [blockLikeRule, label, ifChain, arm, cases, all]

@[simp] theorem tidy_closure (braces : Bool) : (closure braces).Tidy closing := by
  simp [closure, closureParameter, all]

@[simp] theorem tidy_qualifiedClosure (braces : Bool) : (qualifiedClosure braces).Tidy closing := by
  simp [qualifiedClosure, all]

@[simp] theorem tidy_resultValue (braces : Bool) : (resultValue braces).Tidy closing := by
  simp [resultValue]

theorem tidy_operandRule (braces : Bool) : (operandRule braces).Tidy closing := by
  simp [operandRule, elements, cases, all]

/-! ## Statements and items -/

@[simp] theorem tidy_braceCall : braceCall.Tidy closing := by
  simp [braceCall, all]

theorem tidy_statementRule : statementRule.Tidy closing := by
  simp [statementRule, letStatement, cases, all]

@[simp] theorem tidy_signature : signature.Tidy closing := by
  simp [signature, qualifiers, anyParameter, receiverReference, receiverAnnotation,
    parameterPattern, cases, all]

@[simp] theorem tidy_bodyOrSemicolon : bodyOrSemicolon.Tidy closing := by
  simp [bodyOrSemicolon]

@[simp] theorem tidy_constantTail : constantTail.Tidy closing := by
  simp [constantTail, all]

@[simp] theorem tidy_aliasTail : aliasTail.Tidy closing := by
  simp [aliasTail, all]

@[simp] theorem tidy_staticTail : staticTail.Tidy closing := by
  simp [staticTail, all]

@[simp] theorem tidy_macroItem : macroItem.Tidy closing := by
  simp [macroItem, all]

theorem tidy_memberRule : memberRule.Tidy closing := by
  simp [memberRule, memberBody, cases, all]

@[simp] theorem tidy_members : members.Tidy closing := by
  simp [members]

theorem tidy_useRule : useRule.Tidy closing := by
  simp [useRule, cases]

@[simp] theorem tidy_namedFields : namedFields.Tidy closing := by
  simp [namedFields, all]

@[simp] theorem tidy_plainFields : plainFields.Tidy closing := by
  simp [plainFields, all]

@[simp] theorem tidy_structTail : structTail.Tidy closing := by
  simp [structTail, cases, all]

@[simp] theorem tidy_enumTail : enumTail.Tidy closing := by
  simp [enumTail, variant, cases, all]

@[simp] theorem tidy_traitTail : traitTail.Tidy closing := by
  simp [traitTail, all]

@[simp] theorem tidy_implParameters : implParameters.Tidy closing := by
  simp [implParameters]

@[simp] theorem isMembers_implMember : implMember.isMembers = true := rfl

@[simp] theorem tidy_implTail : implTail.Tidy closing := by
  simp [implTail, all]

@[simp] theorem tidy_moduleTail : moduleTail.Tidy closing := by
  simp [moduleTail]

@[simp] theorem tidy_externTail : externTail.Tidy closing := by
  simp [externTail, all]

@[simp] theorem tidy_macroTail : macroTail.Tidy closing := by
  simp [macroTail, all]

theorem tidy_itemRule : itemRule.Tidy closing := by
  simp [itemRule, cases, all]

/-! ## All rules -/

theorem tidy_rules (name : Phrase) : (rules name).Tidy false := by
  cases name with
  | type plus => exact tidy_typeRule plus
  | path => exact tidy_path
  | arguments => exact tidy_arguments
  | bound => exact tidy_bound
  | whereClause => exact tidy_whereRule
  | expressionPath => exact tidy_expressionPathRule
  | expression braces => exact tidy_expressionRule braces
  | blockLike => exact tidy_blockLikeRule
  | operand braces => exact tidy_operandRule braces
  | pattern => exact tidy_patternRule
  | alternative => exact tidy_alternativeRule
  | statement => exact tidy_statementRule
  | item => exact tidy_itemRule
  | member => exact tidy_memberRule
  | useTree => exact tidy_useRule

/-- Rules nested to any depth print readable pieces, and a member what it reads first. -/
theorem keeps_readRule (n : Nat) :
    (∀ name, Keeps (readRule rules n name)) ∧ Leads (readRule rules n .member) := by
  induction n with
  | zero => exact ⟨fun _ _ _ _ h => (nomatch h), fun _ _ _ h => nomatch h⟩
  | succ n ih => exact ⟨fun name => (keeps_read ih.1 ih.2 _).1 (tidy_rules name), leads_memberRule⟩

/-- What a tidy grammar reads prints as readable pieces. -/
theorem keeps_readBy {g : Syntax} (h : g.Tidy false) : Keeps (readBy g) := by
  intro ts p rest hread hts
  obtain ⟨hrules, hmember⟩ := keeps_readRule (depth ts)
  exact (keeps_read hrules hmember g).1 h ts p rest hread hts

end CommandBot.Grammar
