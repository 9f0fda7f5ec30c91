import CommandBot.Grammar.Rules
import CommandBot.Proofs.BlindReading

/-
  No rule of the grammar looks at places: `readBy_unplacedAll` says that tokens without their places
  read as the tokens do.
-/

namespace CommandBot.Grammar

open TokenTree

/-! ## Single tokens -/

@[simp] theorem blind_token {test : TokenTree → Bool}
    (h : ∀ t : TokenTree, test t.unplaced = test t) :
    (token test : Syntax).Blind := by
  intro t
  dsimp only
  rw [h t]
  split
  · rw [Option.map_some, unplacedAll_cons, unplacedAll_nil]
  · rfl

@[simp] theorem blind_word (s : String) : (word s : Syntax).Blind :=
  blind_token fun t => isWord_unplaced t s

@[simp] theorem blind_name : (name : Syntax).Blind := blind_token isName_unplaced

@[simp] theorem blind_anyWord : (anyWord : Syntax).Blind := blind_token isAnyWord_unplaced

@[simp] theorem blind_anyGroup : (anyGroup : Syntax).Blind := blind_token isAnyGroup_unplaced

@[simp] theorem blind_op (s : String) : (op s : Syntax).Blind := trivial

@[simp] theorem blind_fieldName : fieldName.Blind := by
  intro t
  cases t with
  | word w =>
    have hname : isName (.word (.made w.text)) = isName (.word w) := rfl
    rw [unplaced_word]
    dsimp only
    rw [hname]
    cases isName (.word w)
    · rfl
    · simp [unplacedAll_cons, unplacedAll_nil, unplaced_word]
  | literal text s =>
    simp [unplaced_literal, unplacedAll_cons, unplacedAll_nil, Function.comp_def]
  | mark c spacing s => rw [unplaced_mark]; rfl
  | group d content s => rw [unplaced_group]; rfl

@[simp] theorem fieldNumber_unplaced (t : TokenTree) :
    fieldNumber t.unplaced = (fieldNumber t).map unplacedAll := by
  cases t with
  | literal text s =>
    rw [unplaced_literal]
    unfold fieldNumber
    dsimp only
    cases text.toList.span (· != '.') with
    | mk a after =>
      cases after with
      | nil => simp [unplaced_literal, unplacedAll_cons, unplacedAll_nil, Function.comp_def]
      | cons c b =>
        dsimp only
        rw [Option.map_bind]
        congr 1
        funext i
        rw [Function.comp_apply]
        split <;> simp [unplaced_literal, unplaced_mark, unplacedAll_cons, unplacedAll_nil,
          Function.comp_def]
  | word w => rw [unplaced_word]; rfl
  | mark c spacing s => rw [unplaced_mark]; rfl
  | group d content s => rw [unplaced_group]; rfl

/-! ## Shared phrases -/

@[simp] theorem blind_optional (test : Ahead) (g : Syntax) :
    (optional test g).Blind ↔ IsBlind test ∧ g.Blind := by
  simp [optional]

@[simp] theorem blind_maybeWord (s : String) : (maybeWord s : Syntax).Blind := by
  simp [maybeWord]

@[simp] theorem blind_maybe (s : String) : (maybe s : Syntax).Blind := by
  simp [maybe]

@[simp] theorem blind_literal : (literal : Syntax).Blind := by
  simp [literal]

@[simp] theorem blind_listed (item : Syntax) : (listed item).Blind ↔ item.Blind := by
  simp [listed]

@[simp] theorem blind_type : type.Blind := trivial

@[simp] theorem blind_typeNoPlus : typeNoPlus.Blind := trivial

@[simp] theorem blind_expression : expression.Blind := trivial

@[simp] theorem blind_condition : condition.Blind := trivial

@[simp] theorem blind_plainPath : plainPath.Blind := by
  simp [plainPath, all]

@[simp] theorem blind_attributeContent : attributeContent.Blind := by
  simp [attributeContent, cases]

@[simp] theorem blind_outerAttributes : outerAttributes.Blind := by
  simp [outerAttributes, outerAttribute]

@[simp] theorem innerAhead_unplacedAll (ts : List TokenTree) :
    innerAhead (unplacedAll ts) = innerAhead ts := by
  simp [innerAhead]

@[simp] theorem blind_innerAttributes : innerAttributes.Blind := by
  simp [innerAttributes, innerAttribute, all]

@[simp] theorem blind_block : block.Blind := by
  simp [block]

@[simp] theorem blind_visibility : visibility.Blind := by
  simp [visibility]

@[simp] theorem bangAhead_unplacedAll (ts : List TokenTree) :
    bangAhead (unplacedAll ts) = bangAhead ts := by
  simp [bangAhead]

@[simp] theorem blind_callArguments : callArguments.Blind := by
  simp [callArguments]

/-! ## Types -/

@[simp] theorem rootWord_unplacedAll (ts : List TokenTree) :
    rootWord (unplacedAll ts) = rootWord ts := by
  simp [rootWord]

@[simp] theorem angleAhead_unplacedAll (ts : List TokenTree) :
    angleAhead (unplacedAll ts) = angleAhead ts := by
  simp [angleAhead]

@[simp] theorem turbofishAhead_unplacedAll (ts : List TokenTree) :
    turbofishAhead (unplacedAll ts) = turbofishAhead ts := by
  simp [turbofishAhead]

@[simp] theorem callAhead_unplacedAll (ts : List TokenTree) :
    callAhead (unplacedAll ts) = callAhead ts := by
  simp [callAhead]

@[simp] theorem blind_output (plus : Bool) : (output plus).Blind := by
  simp [output]

@[simp] theorem blind_callTypes : callTypes.Blind := by
  simp [callTypes, all]

@[simp] theorem blind_segments (one : Syntax) : (segments one).Blind ↔ one.Blind := by
  simp [segments]

@[simp] theorem blind_qualification : qualification.Blind := by
  simp [qualification, all]

theorem blind_path : path.Blind := by
  simp [path, segment, cases]

@[simp] theorem constantAhead_unplacedAll (ts : List TokenTree) :
    constantAhead (unplacedAll ts) = constantAhead ts := by
  simp [constantAhead]

@[simp] theorem blind_constant : constant.Blind := by
  simp [constant]

@[simp] theorem boundEnd_unplacedAll (ts : List TokenTree) :
    boundEnd (unplacedAll ts) = boundEnd ts := by
  simp [boundEnd]

@[simp] theorem blind_boundsUntil (stop : Ahead) (one : Syntax) :
    (boundsUntil stop one).Blind ↔ IsBlind (either atEnd stop) ∧ one.Blind := by
  simp only [boundsUntil, Blind, blind_op, operatorAhead_unplacedAll, IsBlind]
  exact ⟨fun h => ⟨h.1, h.2.2.1⟩,
    fun h => ⟨h.1, trivial, h.2, fun _ => trivial, trivial, h.1, trivial, h.2⟩⟩

theorem blind_arguments : arguments.Blind := by
  simp [arguments, argument, cases, all]

@[simp] theorem blind_binder : binder.Blind := by
  simp [binder, all]

@[simp] theorem blind_maybeBinder : maybeBinder.Blind := by
  simp [maybeBinder]

theorem blind_bound : bound.Blind := by
  simp [bound, traitBound, captures, cases, all]

@[simp] theorem boundAhead_unplacedAll (ts : List TokenTree) :
    boundAhead (unplacedAll ts) = boundAhead ts := by
  simp [boundAhead]

@[simp] theorem blind_furtherBounds : furtherBounds.Blind := by
  simp [furtherBounds]

@[simp] theorem blind_more (plus : Bool) : (more plus).Blind := by
  cases plus <;> simp [more]

@[simp] theorem blind_bounds (plus : Bool) : (bounds plus).Blind := by
  cases plus <;> simp [bounds]

@[simp] theorem blind_maybeAbi : maybeAbi.Blind := by
  simp [maybeAbi, abi]

@[simp] theorem functionAhead_unplacedAll (ts : List TokenTree) :
    functionAhead (unplacedAll ts) = functionAhead ts := by
  simp [functionAhead]

@[simp] theorem blind_functionType : functionType.Blind := by
  simp [functionType, functionArgument, all]

theorem blind_typeRule (plus : Bool) : (typeRule plus).Blind := by
  simp [typeRule, pathType, enclosedTypes, cases, all]

@[simp] theorem blind_lifetimeBounds : lifetimeBounds.Blind := by
  simp [lifetimeBounds]

@[simp] theorem blind_generics : generics.Blind := by
  simp [generics, parameter, typeParameterEnd, cases, all]

@[simp] theorem clauseEnd_unplacedAll (ts : List TokenTree) :
    clauseEnd (unplacedAll ts) = clauseEnd ts := by
  simp [clauseEnd]

theorem blind_whereRule : whereRule.Blind := by
  simp [whereRule, predicate, all]

/-! ## Patterns -/

theorem blind_expressionPathRule : expressionPathRule.Blind := by
  simp [expressionPathRule, expressionSegment, cases]

@[simp] theorem expressionPathAhead_unplacedAll (ts : List TokenTree) :
    expressionPathAhead (unplacedAll ts) = expressionPathAhead ts := by
  simp [expressionPathAhead]

@[simp] theorem rangeAhead_unplacedAll (ts : List TokenTree) :
    rangeAhead (unplacedAll ts) = rangeAhead ts := by
  simp [rangeAhead]

@[simp] theorem blind_rangeSign : rangeSign.Blind := by
  simp [rangeSign, cases]

@[simp] theorem patternRangeEnd_unplacedAll (ts : List TokenTree) :
    patternRangeEnd (unplacedAll ts) = patternRangeEnd ts := by
  simp [patternRangeEnd]

@[simp] theorem blind_patternBound : patternBound.Blind := by
  simp [patternBound, cases]

@[simp] theorem blind_patternRange : patternRange.Blind := by
  simp [patternRange]

@[simp] theorem blind_patternBinding : patternBinding.Blind := by
  simp [patternBinding]

theorem blind_alternativeRule : alternativeRule.Blind := by
  simp [alternativeRule, pathPattern, patternField, cases, all]

theorem blind_patternRule : patternRule.Blind := by
  simp [patternRule, all]

/-! ## Expressions -/

theorem blind_cases {gs : List (Ahead × Syntax)} {otherwise : Syntax}
    (h : ∀ g ∈ gs, IsBlind g.1 ∧ g.2.Blind) (h' : otherwise.Blind) :
    (Grammar.cases gs otherwise).Blind := by
  induction gs with
  | nil => exact h'
  | cons g gs ih =>
    rw [List.forall_mem_cons] at h
    exact ⟨h.1.1, h.1.2, ih h.2⟩

@[simp] theorem blind_binaryOperator : binaryOperator.Blind := by
  refine blind_cases (fun g hg => ?_) trivial
  obtain ⟨s, -, rfl⟩ := List.mem_map.mp hg
  exact ⟨fun ts => operatorAhead_unplacedAll ts s, blind_op s⟩

@[simp] theorem rangeEnd_unplacedAll (braces : Bool) (ts : List TokenTree) :
    rangeEnd braces (unplacedAll ts) = rangeEnd braces ts := by
  simp [rangeEnd]

@[simp] theorem blind_upperBound (braces : Bool) : (upperBound braces).Blind := by
  simp [upperBound]

@[simp] theorem blind_binaryTail (braces : Bool) : (binaryTail braces).Blind := by
  simp [binaryTail, cases]

theorem blind_expressionRule (braces : Bool) : (expressionRule braces).Blind := by
  simp [expressionRule]

@[simp] theorem selectionAhead_unplacedAll (ts : List TokenTree) :
    selectionAhead (unplacedAll ts) = selectionAhead ts := by
  simp [selectionAhead]

@[simp] theorem blind_postfixes : postfixes.Blind := by
  simp [postfixes, postfixAhead, selection, cases, all]

@[simp] theorem blind_pathOperand (braces : Bool) : (pathOperand braces).Blind := by
  simp [pathOperand, fieldValue, cases]

@[simp] theorem blockLikeAhead_unplacedAll (ts : List TokenTree) :
    blockLikeAhead (unplacedAll ts) = blockLikeAhead ts := by
  simp [blockLikeAhead]

@[simp] theorem blind_continuation : continuation.Blind := by
  simp [continuation]

theorem blind_blockLikeRule : blockLikeRule.Blind := by
  simp [blockLikeRule, label, ifChain, arm, cases, all]

@[simp] theorem blind_closure (braces : Bool) : (closure braces).Blind := by
  simp [closure, closureParameter, all]

@[simp] theorem blind_qualifiedClosure (braces : Bool) : (qualifiedClosure braces).Blind := by
  simp [qualifiedClosure, all]

@[simp] theorem operandEnd_unplacedAll (braces : Bool) (ts : List TokenTree) :
    operandEnd braces (unplacedAll ts) = operandEnd braces ts := by
  simp [operandEnd]

@[simp] theorem blind_resultValue (braces : Bool) : (resultValue braces).Blind := by
  simp [resultValue]

theorem blind_operandRule (braces : Bool) : (operandRule braces).Blind := by
  simp [operandRule, elements, cases, all]

/-! ## Statements and items -/

@[simp] theorem blind_braceCall : braceCall.Blind := by
  simp [braceCall, all]

@[simp] theorem itemAhead_unplacedAll (ts : List TokenTree) :
    itemAhead (unplacedAll ts) = itemAhead ts := by
  simp [itemAhead]

theorem blind_statementRule : statementRule.Blind := by
  simp [statementRule, letStatement, cases, all]

@[simp] theorem safeAhead_unplacedAll (ts : List TokenTree) :
    safeAhead (unplacedAll ts) = safeAhead ts := by
  simp [safeAhead]

@[simp] theorem blind_signature : signature.Blind := by
  simp [signature, qualifiers, anyParameter, receiverReference, receiverAnnotation,
    parameterPattern, cases, all]

@[simp] theorem blind_bodyOrSemicolon : bodyOrSemicolon.Blind := by
  simp [bodyOrSemicolon]

@[simp] theorem blind_constantTail : constantTail.Blind := by
  simp [constantTail, all]

@[simp] theorem blind_aliasTail : aliasTail.Blind := by
  simp [aliasTail, all]

@[simp] theorem blind_staticTail : staticTail.Blind := by
  simp [staticTail, all]

@[simp] theorem blind_macroItem : macroItem.Blind := by
  simp [macroItem, all]

@[simp] theorem defaultAhead_unplacedAll (ts : List TokenTree) :
    defaultAhead (unplacedAll ts) = defaultAhead ts := by
  simp [defaultAhead]

theorem blind_memberRule : memberRule.Blind := by
  simp [memberRule, memberBody, cases, all]

@[simp] theorem blind_members : members.Blind := by
  simp [members]

theorem blind_useRule : useRule.Blind := by
  simp [useRule, cases]

@[simp] theorem blind_namedFields : namedFields.Blind := by
  simp [namedFields, all]

@[simp] theorem blind_plainFields : plainFields.Blind := by
  simp [plainFields, all]

@[simp] theorem blind_structTail : structTail.Blind := by
  simp [structTail, cases, all]

@[simp] theorem blind_enumTail : enumTail.Blind := by
  simp [enumTail, variant, cases, all]

@[simp] theorem blind_traitTail : traitTail.Blind := by
  simp [traitTail, all]

@[simp] theorem blind_implParameters : implParameters.Blind := by
  simp [implParameters, implParametersAhead]

@[simp] theorem negativeAhead_unplacedAll (ts : List TokenTree) :
    negativeAhead (unplacedAll ts) = negativeAhead ts := by
  simp [negativeAhead]

@[simp] theorem blind_implTail : implTail.Blind := by
  simp [implTail, implMember, all]

@[simp] theorem blind_moduleTail : moduleTail.Blind := by
  simp [moduleTail]

@[simp] theorem blind_externTail : externTail.Blind := by
  simp [externTail, all]

@[simp] theorem blind_macroTail : macroTail.Blind := by
  simp [macroTail, all]

theorem blind_itemRule : itemRule.Blind := by
  simp [itemRule, cases, all]

/-! ## All rules -/

theorem blind_rules (name : Phrase) : (rules name).Blind := by
  cases name with
  | type plus => exact blind_typeRule plus
  | path => exact blind_path
  | arguments => exact blind_arguments
  | bound => exact blind_bound
  | whereClause => exact blind_whereRule
  | expressionPath => exact blind_expressionPathRule
  | expression braces => exact blind_expressionRule braces
  | blockLike => exact blind_blockLikeRule
  | operand braces => exact blind_operandRule braces
  | pattern => exact blind_patternRule
  | alternative => exact blind_alternativeRule
  | statement => exact blind_statementRule
  | item => exact blind_itemRule
  | member => exact blind_memberRule
  | useTree => exact blind_useRule

theorem blindReader_readRule (n : Nat) (name : Phrase) : BlindReader (readRule rules n name) := by
  induction n generalizing name with
  | zero => exact fun _ => rfl
  | succ n ih => exact Blind.read ih (blind_rules name)

mutual

theorem weight_unplaced : ∀ t : TokenTree, t.unplaced.weight = t.weight
  | .word w => by
    rw [unplaced_word, weight, weight] <;>
      · intro _ _ _ h
        cases h
  | .mark c spacing s => by
    rw [unplaced_mark, weight, weight] <;>
      · intro _ _ _ h
        cases h
  | .literal text s => by
    rw [unplaced_literal, weight, weight] <;>
      · intro _ _ _ h
        cases h
  | .group d content s => by
    rw [unplaced_group, weight, weight, weightOf_unplacedAll content]

theorem weightOf_unplacedAll : ∀ ts : List TokenTree, weightOf (unplacedAll ts) = weightOf ts
  | [] => by rw [unplacedAll_nil]
  | t :: rest => by
    rw [unplacedAll_cons, weightOf, weightOf, weight_unplaced t, weightOf_unplacedAll rest]

end

/-- What is read does not depend on where the tokens stand. -/
theorem readBy_unplacedAll {g : Syntax} (h : g.Blind) : BlindReader (readBy g) := by
  intro ts
  rw [readBy, readBy, depth, weightOf_unplacedAll]
  exact Blind.read (blindReader_readRule _) h ts

end CommandBot.Grammar
