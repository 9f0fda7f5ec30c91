import CommandBot.Proofs.NamedTypes
import CommandBot.Proofs.TokenPlaces

/-
  Where printed tokens stand. A grammar is `Steady` when it adds no token of its own: then what it
  prints stands where it was read (`keepsPlaces_readBy`). Only type parameters are not, since a comma
  may be added to them, but their brackets are (`ends_of_generics`). A grammar `Prints` when it never
  prints nothing; types do.
-/

namespace CommandBot

/-- A phrase whose tokens print where they were read, as far as they are in no group. -/
@[simp] def Phrase.isSteady : Phrase → Bool
  | .type _ | .path | .arguments | .bound | .expressionPath | .expression _ | .blockLike
  | .operand _ | .pattern | .alternative => true
  | _ => false

/-- A phrase that prints something. -/
@[simp] def Phrase.isPrinted : Phrase → Bool
  | .type _ | .path | .bound => true
  | _ => false

namespace Grammar

/-! ## Readers -/

/-- Each token printed stands where one does that was read. -/
def KeepsPlaces (r : Reader) : Prop :=
  ∀ ts p rest, r ts = some (p, rest) →
    ∃ front, ts = front ++ rest ∧ ∀ t ∈ p, ∃ u ∈ front, u.span = t.span

theorem keepsPlaces_nothing : KeepsPlaces fun ts => some ([], ts) := by
  intro ts p rest hread
  cases hread
  exact ⟨[], rfl, fun t ht => absurd ht List.not_mem_nil⟩

theorem KeepsPlaces.bind {a b : Reader} (ha : KeepsPlaces a) (hb : KeepsPlaces b)
    {ts p rest : List TokenTree}
    (h : ((a ts).bind fun r => (b r.2).map fun q => (r.1 ++ q.1, q.2)) = some (p, rest)) :
    ∃ front, ts = front ++ rest ∧ ∀ t ∈ p, ∃ u ∈ front, u.span = t.span := by
  obtain ⟨r, hr, hmap⟩ := Option.bind_eq_some_iff.mp h
  obtain ⟨q, hq, heq⟩ := Option.map_eq_some_iff.mp hmap
  cases heq
  obtain ⟨front, rfl, hfront⟩ := ha _ _ _ hr
  obtain ⟨front', hbehind, hfront'⟩ := hb _ _ _ hq
  refine ⟨front ++ front', by rw [hbehind, List.append_assoc], ?_⟩
  rw [List.forall_mem_append]
  constructor
  · intro t ht
    obtain ⟨u, hu, hspan⟩ := hfront t ht
    exact ⟨u, List.mem_append_left _ hu, hspan⟩
  · intro t ht
    obtain ⟨u, hu, hspan⟩ := hfront' t ht
    exact ⟨u, List.mem_append_right _ hu, hspan⟩

theorem keepsPlaces_readOperator (signs : List Char) : KeepsPlaces (readOperator signs) := by
  intro ts p rest hread
  fun_induction readOperator signs ts generalizing p with
  | case1 ts => exact keepsPlaces_nothing _ _ _ hread
  | case2 c s rest' =>
    cases hread
    refine ⟨[_], rfl, List.forall_mem_singleton.mpr ⟨_, List.mem_singleton_self _, rfl⟩⟩
  | case3 => cases hread
  | case4 cs c s rest' hcs ih =>
    obtain ⟨r, hr, heq⟩ := Option.map_eq_some_iff.mp hread
    cases heq
    obtain ⟨front, rfl, hfront⟩ := ih _ hr
    refine ⟨_ :: front, rfl, List.forall_mem_cons.mpr ⟨⟨_, List.mem_cons_self, rfl⟩, ?_⟩⟩
    intro t ht
    obtain ⟨u, hu, hspan⟩ := hfront t ht
    exact ⟨u, List.mem_cons_of_mem _ hu, hspan⟩
  | case5 => cases hread
  | case6 => cases hread

theorem keepsPlaces_loop (test : Ahead) {body : Reader} (h : KeepsPlaces body) (n : Nat) :
    KeepsPlaces (loop test body n) := by
  induction n with
  | zero => exact keepsPlaces_nothing
  | succ n ih =>
    intro ts p rest hread
    rw [loop_succ] at hread
    split at hread
    · exact h.bind ih hread
    · exact keepsPlaces_nothing _ _ _ hread

/-! ## Grammars -/

/-- A grammar adds no token: what is in no group prints where it was read. -/
@[simp] def Steady : Syntax → Prop
  | .nothing | .fail | .operator _ | .lifetime | .inside _ _ => True
  | .leaf accepts => ∀ t p, accepts t = some p → ∀ u ∈ p, u.span = t.span
  | .seq first second => first.Steady ∧ second.Steady
  | .ifAhead _ yes no => yes.Steady ∧ no.Steady
  | .whileAhead _ body => body.Steady
  | .rule name => name.isSteady = true
  | .writtenUnless _ body => body.Steady
  | .unlessAlone body => body.Steady
  | .parameters _ => False

theorem keepsPlaces_read {call : Phrase → Reader}
    (hcall : ∀ name, name.isSteady = true → KeepsPlaces (call name)) {g : Syntax} (hg : g.Steady) :
    KeepsPlaces (g.read call) := by
  induction g with
  | nothing => exact keepsPlaces_nothing
  | fail => exact fun _ _ _ hread => nomatch hread
  | leaf accepts =>
    intro ts p rest hread
    cases ts with
    | nil => cases hread
    | cons t ts =>
      obtain ⟨q, hq, heq⟩ := Option.map_eq_some_iff.mp hread
      cases heq
      exact ⟨[t], rfl, fun u hu => ⟨t, List.mem_singleton_self t, (hg t p hq u hu).symm⟩⟩
  | operator signs => exact keepsPlaces_readOperator signs
  | lifetime =>
    intro ts p rest hread
    rw [read, readLifetime.eq_def] at hread
    split at hread
    · cases hread
      exact ⟨[_, _], rfl, fun t ht => ⟨t, ht, rfl⟩⟩
    · cases hread
  | inside d content =>
    intro ts p rest hread
    obtain ⟨inner, s, printed, rfl, -, rfl⟩ := inside_eq_some_iff.mp hread
    exact ⟨[_], rfl, List.forall_mem_singleton.mpr ⟨_, List.mem_singleton_self _, rfl⟩⟩
  | seq a b ha hb => exact fun ts p rest hread => (ha hg.1).bind (hb hg.2) hread
  | ifAhead test yes no hyes hno =>
    intro ts p rest hread
    rw [read] at hread
    split at hread
    · exact hyes hg.1 _ _ _ hread
    · exact hno hg.2 _ _ _ hread
  | whileAhead test body hbody => exact fun ts => keepsPlaces_loop test (hbody hg) ts.length ts
  | rule name => exact hcall name hg
  | writtenUnless test body hbody =>
    intro ts p rest hread
    obtain ⟨r, hr, heq⟩ := Option.map_eq_some_iff.mp hread
    cases heq
    obtain ⟨front, rfl, hfront⟩ := hbody hg _ _ _ hr
    refine ⟨front, rfl, ?_⟩
    split
    · exact hfront
    · rw [List.length_append, Nat.add_sub_cancel, List.take_left]
      exact fun t ht => ⟨t, ht, rfl⟩
  | unlessAlone body hbody =>
    intro ts p rest hread
    obtain ⟨r, hr, heq⟩ := Option.map_eq_some_iff.mp hread
    cases heq
    obtain ⟨front, hfront, hkept⟩ := hbody hg _ _ _ hr
    refine ⟨front, hfront, ?_⟩
    split
    · exact fun t ht => absurd ht List.not_mem_nil
    · exact hkept
  | parameters one hone => exact hg.elim

/-- A grammar that never prints nothing. -/
@[simp] def Prints : Syntax → Prop
  | .fail | .lifetime | .inside _ _ => True
  | .nothing | .whileAhead _ _ | .unlessAlone _ | .writtenUnless _ _ | .parameters _ => False
  | .leaf accepts => ∀ t p, accepts t = some p → p ≠ []
  | .operator signs => signs ≠ []
  | .seq first second => first.Prints ∨ second.Prints
  | .ifAhead _ yes no => yes.Prints ∧ no.Prints
  | .rule name => name.isPrinted = true

theorem ne_nil_of_read {call : Phrase → Reader}
    (hcall : ∀ name, name.isPrinted = true → ∀ ts p rest, call name ts = some (p, rest) → p ≠ [])
    {g : Syntax} (hg : g.Prints) {ts p rest : List TokenTree}
    (hread : g.read call ts = some (p, rest)) : p ≠ [] := by
  induction g generalizing ts p rest with
  | nothing => exact hg.elim
  | fail => cases hread
  | leaf accepts =>
    cases ts with
    | nil => cases hread
    | cons t ts =>
      obtain ⟨q, hq, heq⟩ := Option.map_eq_some_iff.mp hread
      cases heq
      exact hg t p hq
  | operator signs => exact (leads_readOperator hg _ _ _ hread).1
  | lifetime =>
    rw [read, readLifetime.eq_def] at hread
    split at hread
    · cases hread
      exact List.cons_ne_nil _ _
    · cases hread
  | inside d content =>
    obtain ⟨inner, s, printed, -, -, rfl⟩ := inside_eq_some_iff.mp hread
    exact List.cons_ne_nil _ _
  | seq a b ha hb =>
    obtain ⟨r, hr, hmap⟩ := Option.bind_eq_some_iff.mp hread
    obtain ⟨q, hq, heq⟩ := Option.map_eq_some_iff.mp hmap
    cases heq
    rcases hg with hg | hg
    · exact List.append_ne_nil_of_left_ne_nil (ha hg hr) _
    · exact List.append_ne_nil_of_right_ne_nil _ (hb hg hq)
  | ifAhead test yes no hyes hno =>
    rw [read] at hread
    split at hread
    · exact hyes hg.1 hread
    · exact hno hg.2 hread
  | whileAhead test body hbody => exact hg.elim
  | rule name => exact hcall name hg _ _ _ hread
  | writtenUnless test body hbody => exact hg.elim
  | unlessAlone body hbody => exact hg.elim
  | parameters one hone => exact hg.elim

/-! ## Shared phrases -/

@[simp] theorem steady_token (test : TokenTree → Bool) : (token test).Steady := by
  intro t p hp u hu
  obtain ⟨-, hp⟩ := Option.ite_none_right_eq_some.mp hp
  cases hp
  rw [List.mem_singleton.mp hu]

@[simp] theorem prints_token (test : TokenTree → Bool) : (token test).Prints := by
  intro t p hp
  obtain ⟨-, hp⟩ := Option.ite_none_right_eq_some.mp hp
  cases hp
  exact List.cons_ne_nil _ _

@[simp] theorem steady_op (s : String) : (op s).Steady := trivial

@[simp] theorem steady_word (s : String) : (word s).Steady := steady_token _

@[simp] theorem prints_word (s : String) : (word s).Prints := prints_token _

@[simp] theorem steady_anyWord : anyWord.Steady := steady_token _

@[simp] theorem steady_anyGroup : anyGroup.Steady := steady_token _

@[simp] theorem steady_optional (test : Ahead) (g : Syntax) :
    (optional test g).Steady ↔ g.Steady := by
  simp [optional]

@[simp] theorem steady_maybe (s : String) : (maybe s).Steady := by
  simp [maybe]

@[simp] theorem steady_maybeWord (s : String) : (maybeWord s).Steady := by
  simp [maybeWord]

@[simp] theorem steady_literal : literal.Steady := by
  simp [literal]

@[simp] theorem steady_type : type.Steady := rfl

@[simp] theorem prints_type : type.Prints := rfl

@[simp] theorem steady_typeNoPlus : typeNoPlus.Steady := rfl

@[simp] theorem steady_expression : expression.Steady := rfl

@[simp] theorem steady_condition : condition.Steady := rfl

@[simp] theorem steady_block : block.Steady := trivial

@[simp] theorem steady_outerAttributes : outerAttributes.Steady := by
  simp [outerAttributes, outerAttribute]

@[simp] theorem steady_plainPath : plainPath.Steady := by
  simp [plainPath, all]

@[simp] theorem steady_callArguments : callArguments.Steady := by
  simp [callArguments]

/-! ## Types -/

@[simp] theorem steady_output (plus : Bool) : (output plus).Steady := by
  simp [output]

@[simp] theorem steady_callTypes : callTypes.Steady := by
  simp [callTypes, all]

@[simp] theorem steady_segments (one : Syntax) : (segments one).Steady ↔ one.Steady := by
  simp [segments]

@[simp] theorem steady_qualification : qualification.Steady := by
  simp [qualification, all]

@[simp] theorem steady_segment : segment.Steady := by
  simp [segment, cases]

theorem steady_path : path.Steady := by
  simp [path]

@[simp] theorem steady_constant : constant.Steady := by
  simp [constant]

@[simp] theorem steady_boundsUntil (stop : Ahead) (one : Syntax) :
    (boundsUntil stop one).Steady ↔ one.Steady := by
  simp [boundsUntil]

theorem steady_arguments : arguments.Steady := by
  simp [arguments, argument, cases, all]

@[simp] theorem steady_binder : binder.Steady := by
  simp [binder, all]

@[simp] theorem steady_maybeBinder : maybeBinder.Steady := by
  simp [maybeBinder]

theorem steady_bound : bound.Steady := by
  simp [bound, traitBound, captures, cases, all]

@[simp] theorem steady_furtherBounds : furtherBounds.Steady := by
  simp [furtherBounds]

@[simp] theorem steady_more (plus : Bool) : (more plus).Steady := by
  cases plus <;> simp [more]

@[simp] theorem steady_bounds (plus : Bool) : (bounds plus).Steady := by
  cases plus <;> simp [bounds]

@[simp] theorem steady_maybeAbi : maybeAbi.Steady := by
  simp [maybeAbi, abi]

@[simp] theorem steady_functionType : functionType.Steady := by
  simp [functionType, all]

theorem steady_typeRule (plus : Bool) : (typeRule plus).Steady := by
  simp [typeRule, pathType, cases, all]

/-! ## Patterns -/

theorem steady_expressionPathRule : expressionPathRule.Steady := by
  simp [expressionPathRule, expressionSegment, cases]

@[simp] theorem steady_rangeSign : rangeSign.Steady := by
  simp [rangeSign, cases]

@[simp] theorem steady_patternBound : patternBound.Steady := by
  simp [patternBound, cases]

@[simp] theorem steady_patternRange : patternRange.Steady := by
  simp [patternRange]

@[simp] theorem steady_patternBinding : patternBinding.Steady := by
  simp [patternBinding]

theorem steady_alternativeRule : alternativeRule.Steady := by
  simp [alternativeRule, pathPattern, cases, all]

theorem steady_patternRule : patternRule.Steady := by
  simp [patternRule, all]

/-! ## Expressions -/

theorem steady_cases {gs : List (Ahead × Syntax)} {otherwise : Syntax} (h : ∀ g ∈ gs, g.2.Steady)
    (h' : otherwise.Steady) : (Grammar.cases gs otherwise).Steady := by
  induction gs with
  | nil => exact h'
  | cons g gs ih =>
    exact ⟨h g List.mem_cons_self, ih fun g' hg => h g' (List.mem_cons_of_mem _ hg)⟩

@[simp] theorem steady_binaryOperator : binaryOperator.Steady := by
  refine steady_cases (fun g hg => ?_) trivial
  obtain ⟨s, -, rfl⟩ := List.mem_map.mp hg
  exact steady_op s

@[simp] theorem steady_binaryTail (braces : Bool) : (binaryTail braces).Steady := by
  simp [binaryTail, upperBound, cases]

theorem steady_expressionRule (braces : Bool) : (expressionRule braces).Steady := by
  simp [expressionRule]

/-- The numbers of fields stand where the literal does that names them. -/
theorem span_of_fieldNumber {t : TokenTree} {p : List TokenTree} (hp : fieldNumber t = some p) :
    ∀ u ∈ p, u.span = t.span := by
  intro u hu
  unfold fieldNumber at hp
  split at hp
  · rename_i text s
    split at hp
    · obtain ⟨i, -, rfl⟩ := Option.map_eq_some_iff.mp hp
      rw [List.mem_singleton.mp hu]
      rfl
    · obtain ⟨i, -, hp⟩ := Option.bind_eq_some_iff.mp hp
      have hspan : ∀ j : String, ∀ v ∈ ([.literal i s, .mark '.' .alone s, .literal j s] :
          List TokenTree), v.span = s := by
        simp [TokenTree.span]
      split at hp
      · cases hp
        exact hspan i u (List.mem_of_mem_take (i := 2) hu)
      · obtain ⟨j, -, rfl⟩ := Option.map_eq_some_iff.mp hp
        exact hspan j u hu
  · cases hp

@[simp] theorem steady_postfixes : postfixes.Steady := by
  have hnumber : Steady (.leaf fieldNumber) := fun t p => span_of_fieldNumber
  simpa [postfixes, selection, cases, all] using hnumber

@[simp] theorem steady_closure (braces : Bool) : (closure braces).Steady := by
  simp [closure, closureParameter, all]

@[simp] theorem steady_qualifiedClosure (braces : Bool) : (qualifiedClosure braces).Steady := by
  simp [qualifiedClosure, all]

theorem steady_blockLikeRule : blockLikeRule.Steady := by
  simp [blockLikeRule, label, ifChain, cases, all]

theorem steady_operandRule (braces : Bool) : (operandRule braces).Steady := by
  simp [operandRule, upperBound, resultValue, pathOperand, cases, all]

/-! ## All rules -/

theorem steady_rules {name : Phrase} (h : name.isSteady = true) : (rules name).Steady := by
  cases name with
  | type plus => exact steady_typeRule plus
  | path => exact steady_path
  | arguments => exact steady_arguments
  | bound => exact steady_bound
  | expressionPath => exact steady_expressionPathRule
  | expression braces => exact steady_expressionRule braces
  | blockLike => exact steady_blockLikeRule
  | operand braces => exact steady_operandRule braces
  | pattern => exact steady_patternRule
  | alternative => exact steady_alternativeRule
  | whereClause | statement | item | member | useTree => cases h

theorem keepsPlaces_readRule (n : Nat) {name : Phrase} (h : name.isSteady = true) :
    KeepsPlaces (readRule rules n name) := by
  induction n generalizing name with
  | zero => exact fun _ _ _ hread => nomatch hread
  | succ n ih => exact keepsPlaces_read (fun _ => ih) (steady_rules h)

/-- What a steady grammar prints stands where it was read. -/
theorem keepsPlaces_readBy {g : Syntax} (hg : g.Steady) : KeepsPlaces (readBy g) := fun ts =>
  keepsPlaces_read (fun _ => keepsPlaces_readRule (depth ts)) hg ts

theorem prints_rules {name : Phrase} (h : name.isPrinted = true) : (rules name).Prints := by
  cases name with
  | type plus =>
    cases plus <;>
      simp [rules, typeRule, pathType, binder, functionType, bounds, op, cases, all]
  | path => simp [rules, path, segment, cases]
  | bound => simp [rules, bound, captures, traitBound, cases, all]
  | _ => cases h

theorem ne_nil_of_readRule (n : Nat) {name : Phrase} (h : name.isPrinted = true)
    {ts p rest : List TokenTree} (hread : readRule rules n name ts = some (p, rest)) : p ≠ [] := by
  induction n generalizing name ts p rest with
  | zero => cases hread
  | succ n ih => exact ne_nil_of_read (fun name h ts p rest => ih h) (prints_rules h) hread

theorem ne_nil_of_readBy {g : Syntax} (hg : g.Prints) {ts p rest : List TokenTree}
    (hread : readBy g ts = some (p, rest)) : p ≠ [] :=
  ne_nil_of_read (fun _ h _ _ _ => ne_nil_of_readRule (depth ts) h) hg hread

/-! ## Type parameters -/

/-- Type parameters that print reach from one of the tokens read to another. -/
theorem ends_of_generics {ts p rest : List TokenTree} (h : readBy generics ts = some (p, rest)) :
    ∃ front, ts = front ++ rest ∧
      (p ≠ [] → ∃ t ∈ front, ∃ u ∈ front, TokenTree.spanOf p = t.span.join u.span) := by
  have hone := takesFront_read (takesFront_readRule (depth ts)) parameter
  rw [readBy, generics, read, readGenerics.eq_def] at h
  split at h
  · rename_i spacing s behind
    split at h
    · rename_i ps spacing' e rest' hps
      obtain ⟨inside, rfl⟩ := suffix_of_readParameters hone hps
      refine ⟨.mark '<' spacing s :: (inside ++ [.mark '>' spacing' e]), ?_, fun hne => ?_⟩
      · split at h <;> cases h <;> simp
      · split at h
        · cases h
          exact absurd rfl hne
        · cases h
          refine ⟨_, List.mem_cons_self, .mark '>' spacing' e, by simp, ?_⟩
          exact TokenTree.spanOf_eq (t := .mark '<' .alone s) (u := .mark '>' .alone e) rfl
            List.getLast?_concat
    · cases h
  · cases h
    exact ⟨[], rfl, fun hne => absurd rfl hne⟩

end Grammar

end CommandBot
