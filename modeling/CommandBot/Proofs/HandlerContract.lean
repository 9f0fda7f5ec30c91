import CommandBot.Proofs.Accepted

/-
  The contract between a handler and its command. `KeepsContract` is what a signature must be for a
  plain call with at most the event to work, and `Breaks` names the ten ways to miss it. The checks
  are made one after the other, and of several the first that fails is reported (`Checks`).
  `ofCommand_by_contract`: a command has a handler exactly when its signature keeps the contract; the
  handler calls it through the bot or through its type, with the event or without, as the signature
  says; and otherwise the fault is the first of the ten, with the command's name.
-/

namespace CommandBot

open Template

/-! ## Signatures -/

namespace WrittenType

/-- What stands behind the lifetime that some tokens may begin with. -/
def behindLifetime : List TokenTree → List TokenTree
  | .mark '\'' _ _ :: _ :: rest => rest
  | ts => ts

/-- The type is written as a reference, and not as a mutable one. -/
def BorrowsShared (t : WrittenType) : Prop :=
  ∃ spacing s rest, t.trees = .mark '&' spacing s :: rest ∧
    ∀ w, (behindLifetime rest).head? = some (.word w) → w.text ≠ "mut"

/-- The type is written as a pair of parentheses with nothing between them. -/
def IsEmptyTuple (t : WrittenType) : Prop := ∃ s, t.trees = [.group .parenthesis [] s]

theorem isUnit_iff (t : WrittenType) : t.isUnit = true ↔ t.IsEmptyTuple := by
  unfold isUnit IsEmptyTuple
  split
  · rename_i s htrees
    exact iff_of_true rfl ⟨s, htrees⟩
  · rename_i hnot
    exact iff_of_false Bool.false_ne_true fun ⟨s, hs⟩ => hnot s hs

theorem not_wordAhead_iff (word : String) (ts : List TokenTree) :
    Grammar.wordAhead word ts = false ↔ ∀ w, ts.head? = some (.word w) → w.text ≠ word := by
  rcases ts with _ | ⟨t, rest⟩
  · exact iff_of_true rfl fun w h => nomatch h
  · rcases t with w | _ | _ | _
    · simp [Grammar.wordAhead, Grammar.first, Grammar.isWord]
    all_goals exact iff_of_true rfl fun w h => nomatch h

theorem isSharedReference_iff (t : WrittenType) : t.isSharedReference = true ↔ t.BorrowsShared := by
  unfold isSharedReference BorrowsShared
  split
  · rename_i spacing s spacing' s' name rest htrees
    rw [htrees, Bool.not_eq_true', not_wordAhead_iff]
    constructor
    · exact fun h => ⟨spacing, s, _, rfl, h⟩
    · rintro ⟨_, _, _, heq, h⟩
      obtain ⟨-, rfl⟩ := List.cons.inj heq
      exact h
  · rename_i spacing s rest hlifetime htrees
    have hbehind : behindLifetime rest = rest := by
      unfold behindLifetime
      split
      · exact absurd rfl (hlifetime _ _ _ _)
      · rfl
    rw [htrees, Bool.not_eq_true', not_wordAhead_iff]
    constructor
    · exact fun h => ⟨spacing, s, rest, rfl, hbehind.symm ▸ h⟩
    · rintro ⟨_, _, _, heq, h⟩
      obtain ⟨-, rfl⟩ := List.cons.inj heq
      exact hbehind ▸ h
  · rename_i hnot
    exact iff_of_false Bool.false_ne_true fun ⟨_, _, _, htrees, _⟩ => hnot _ _ _ htrees

end WrittenType

namespace Parameter

/-- The parameter is `&self`, perhaps with a lifetime, but neither `mut` nor with a type. -/
def IsPlainReceiver (p : Parameter) : Prop :=
  ∃ reference self, reference ≠ [] ∧ p.form = .receiver reference [] self []

/-- The parameter is no receiver, and its type is written as a shared reference. -/
def TakesShared (p : Parameter) : Prop :=
  ∃ pattern type, p.form = .typed pattern type ∧ type.BorrowsShared

theorem isPlainReceiver_iff (p : Parameter) :
    Handler.isPlainReceiver p.form = true ↔ p.IsPlainReceiver := by
  unfold Handler.isPlainReceiver IsPlainReceiver
  split
  · rename_i reference mutability self annotation hform
    rw [hform]
    simp only [Bool.and_eq_true, Bool.not_eq_true', List.isEmpty_eq_false_iff, List.isEmpty_iff]
    constructor
    · rintro ⟨⟨hreference, rfl⟩, rfl⟩
      exact ⟨reference, self, hreference, rfl⟩
    · rintro ⟨_, _, hreference, heq⟩
      cases heq
      exact ⟨⟨hreference, rfl⟩, rfl⟩
  · rename_i hform
    exact iff_of_false Bool.false_ne_true fun ⟨_, _, _, h⟩ => nomatch hform.symm.trans h

theorem IsPlainReceiver.isReceiver {p : Parameter} (h : p.IsPlainReceiver) : p.isReceiver = true := by
  obtain ⟨reference, self, -, hform⟩ := h
  rw [Parameter.isReceiver, hform]

theorem takesSharedReference_iff (p : Parameter) :
    Handler.takesSharedReference p = true ↔ p.TakesShared := by
  unfold Handler.takesSharedReference TakesShared
  split
  · rename_i pattern type hform
    rw [WrittenType.isSharedReference_iff]
    constructor
    · exact fun h => ⟨pattern, type, hform, h⟩
    · rintro ⟨_, _, heq, h⟩
      cases hform.symm.trans heq
      exact h
  · rename_i hform
    exact iff_of_false Bool.false_ne_true fun ⟨_, _, h, _⟩ => nomatch hform.symm.trans h

theorem TakesShared.not_isReceiver {p : Parameter} (h : p.TakesShared) : p.isReceiver = false := by
  obtain ⟨pattern, type, hform, -⟩ := h
  rw [Parameter.isReceiver, hform]

end Parameter

namespace Signature

/-- The first parameter, if it is a receiver. -/
def receiver? (s : Signature) : Option Parameter :=
  (Handler.parameters s).head?.filter Parameter.isReceiver

/-- The parameters, without the receiver if the first one is it. -/
def furtherParameters (s : Signature) : List Parameter :=
  (Handler.parameters s).drop s.receiver?.toList.length

theorem splitReceiver_parameters (s : Signature) :
    Handler.splitReceiver (Handler.parameters s) = (s.receiver?, s.furtherParameters) := by
  unfold receiver? furtherParameters receiver?
  rcases Handler.parameters s with _ | ⟨p, rest⟩
  · rfl
  · cases h : p.isReceiver <;> simp [Handler.splitReceiver, Option.filter, h]

theorem parameters_eq (s : Signature) :
    Handler.parameters s = s.receiver?.toList ++ s.furtherParameters := by
  unfold furtherParameters receiver?
  rcases Handler.parameters s with _ | ⟨p, rest⟩
  · rfl
  · cases h : p.isReceiver <;> simp [Option.filter, h]

/-! ## The contract -/

/-- What the signature of a command has to be. Names count as they are written. -/
structure KeepsContract (s : Signature) : Prop where
  name : s.name.text ∉ Handler.reservedNames
  asyncness : s.asyncness = []
  generics : s.generics = []
  unsafety : s.unsafety = []
  abi : s.abi = []
  variadic : s.variadic = []
  output : ∃ arrow type, s.output = some (arrow, type) ∧ ¬ type.IsEmptyTuple
  inputs : ∃ receiver event : Option Parameter,
    Handler.parameters s = receiver.toList ++ event.toList ∧
      (∀ r ∈ receiver, r.IsPlainReceiver) ∧ ∀ p ∈ event, p.TakesShared

/-- What each fault of a command says of its signature, whatever else is wrong with it. -/
def Breaks (s : Signature) : CommandFault → Prop
  | .reservedName => s.name.text ∈ Handler.reservedNames
  | .asynchronous => s.asyncness ≠ []
  | .generic => s.generics ≠ []
  | .notSafe => s.unsafety ≠ []
  | .foreignAbi => s.abi ≠ []
  | .variadic => s.variadic ≠ []
  | .noReply => ∀ arrow type, s.output = some (arrow, type) → type.IsEmptyTuple
  | .receiver => ∃ r ∈ s.receiver?, ¬ r.IsPlainReceiver
  | .tooManyParameters => 1 < s.furtherParameters.length
  | .parameterType => ∃ p ∈ s.furtherParameters.head?, ¬ p.TakesShared

theorem inputs_of_not_breaks {s : Signature} (hreceiver : ¬ s.Breaks .receiver)
    (hmany : ¬ s.Breaks .tooManyParameters) (htype : ¬ s.Breaks .parameterType) :
    ∃ receiver event : Option Parameter,
      Handler.parameters s = receiver.toList ++ event.toList ∧
        (∀ r ∈ receiver, r.IsPlainReceiver) ∧ ∀ p ∈ event, p.TakesShared := by
  refine ⟨s.receiver?, s.furtherParameters.head?, ?_, ?_, ?_⟩
  · have hfew : s.furtherParameters.length ≤ 1 := Nat.not_lt.mp hmany
    have hevent : s.furtherParameters.head?.toList = s.furtherParameters := by
      rcases hfurther : s.furtherParameters with _ | ⟨p, _ | ⟨q, rest⟩⟩
      · rfl
      · rfl
      · rw [hfurther] at hfew
        exact absurd hfew (Nat.not_le.mpr (Nat.one_lt_succ_succ rest.length))
    rw [hevent, parameters_eq]
  · exact fun r hr => Classical.byContradiction fun h => hreceiver ⟨r, hr, h⟩
  · exact fun p hp => Classical.byContradiction fun h => htype ⟨p, hp, h⟩

/-- The receiver and the event are what the parameters are split into. -/
theorem KeepsContract.split {s : Signature} (h : s.KeepsContract) :
    (∀ r ∈ s.receiver?, r.IsPlainReceiver) ∧ ∃ event : Option Parameter,
      s.furtherParameters = event.toList ∧ ∀ p ∈ event, p.TakesShared := by
  obtain ⟨receiver, event, hinputs, hreceiver, hevent⟩ := h.inputs
  have hfirst : s.receiver? = receiver := by
    rw [receiver?, hinputs]
    rcases receiver with _ | r
    · rcases event with _ | p
      · rfl
      · simp [(hevent p rfl).not_isReceiver]
    · simp [(hreceiver r rfl).isReceiver]
  rw [parameters_eq, hfirst] at hinputs
  exact ⟨hfirst ▸ hreceiver, event, List.append_cancel_left hinputs, hevent⟩

/-- A signature keeps the contract when it breaks it in none of the ten ways. -/
theorem keepsContract_iff (s : Signature) : s.KeepsContract ↔ ∀ fault, ¬ s.Breaks fault := by
  constructor
  · intro h fault hbreaks
    obtain ⟨hreceiver, event, hfurther, hevent⟩ := h.split
    cases fault with
    | reservedName => exact h.name hbreaks
    | asynchronous => exact hbreaks h.asyncness
    | generic => exact hbreaks h.generics
    | notSafe => exact hbreaks h.unsafety
    | foreignAbi => exact hbreaks h.abi
    | variadic => exact hbreaks h.variadic
    | noReply =>
      obtain ⟨arrow, type, houtput, htype⟩ := h.output
      exact htype (hbreaks arrow type houtput)
    | receiver =>
      obtain ⟨r, hr, hplain⟩ := hbreaks
      exact hplain (hreceiver r hr)
    | tooManyParameters =>
      rw [Breaks, hfurther] at hbreaks
      exact absurd hbreaks (Nat.not_lt.mpr Option.length_toList_le)
    | parameterType =>
      obtain ⟨p, hp, hshared⟩ := hbreaks
      rw [hfurther, Option.head?_toList] at hp
      exact hshared (hevent p hp)
  · intro h
    refine
      { name := h .reservedName
        asyncness := Classical.not_not.mp (h .asynchronous)
        generics := Classical.not_not.mp (h .generic)
        unsafety := Classical.not_not.mp (h .notSafe)
        abi := Classical.not_not.mp (h .foreignAbi)
        variadic := Classical.not_not.mp (h .variadic)
        output := ?_
        inputs := inputs_of_not_breaks (h .receiver) (h .tooManyParameters) (h .parameterType) }
    have houtput := h .noReply
    simp only [Breaks, Classical.not_forall] at houtput
    obtain ⟨arrow, type, houtput, htype⟩ := houtput
    exact ⟨arrow, type, houtput, htype⟩

end Signature

/-! ## The first fault -/

/-- The faults of a command in the order in which they are looked for. -/
def CommandFault.inOrder : List CommandFault :=
  [.reservedName, .asynchronous, .generic, .notSafe, .foreignAbi, .variadic, .noReply, .receiver,
    .tooManyParameters, .parameterType]

theorem CommandFault.mem_inOrder (fault : CommandFault) : fault ∈ inOrder := by
  cases fault <;> decide

/-- What comes of looking for some faults one after the other. -/
inductive Signature.Checks (s : Signature) :
    List CommandFault → Option (CommandFault × Span) → Prop
  | passed : s.Checks [] none
  | failed {fault : CommandFault} {rest : List CommandFault} {place : Span}
    (h : s.Breaks fault) : s.Checks (fault :: rest) (some (fault, place))
  | next {fault : CommandFault} {rest : List CommandFault} {found : Option (CommandFault × Span)}
    (h : ¬ s.Breaks fault) (hrest : s.Checks rest found) : s.Checks (fault :: rest) found

namespace Signature.Checks

variable {s : Signature} {fault : CommandFault} {faults others : List CommandFault}
  {found found' : Option (CommandFault × Span)}

theorem append (h : s.Checks faults found) (h' : s.Checks others found') :
    s.Checks (faults ++ others) (found.or found') := by
  induction h with
  | passed => exact h'
  | failed h => exact .failed h
  | next h _ ih => exact .next h ih

/-- A test for one fault before the others. -/
theorem test {b : Bool} {place : Span} (hb : b = true ↔ s.Breaks fault)
    (h : s.Checks faults found) :
    s.Checks (fault :: faults) (if b = true then some (fault, place) else found) := by
  split
  · rename_i htrue
    exact .failed (hb.mp htrue)
  · rename_i hfalse
    exact .next (fun hbreaks => hfalse (hb.mpr hbreaks)) h

theorem none_of_passed (h : s.Checks faults none) : ∀ f ∈ faults, ¬ s.Breaks f := by
  generalize hfound : (none : Option (CommandFault × Span)) = found at h
  induction h with
  | passed => exact fun f hf => absurd hf List.not_mem_nil
  | failed _ => contradiction
  | next h _ ih => exact List.forall_mem_cons.mpr ⟨h, ih hfound⟩

/-- What is found is broken, and nothing looked for earlier is. -/
theorem first_of_failed {place : Span} (h : s.Checks faults (some (fault, place))) :
    ∃ before after, faults = before ++ fault :: after ∧ (∀ f ∈ before, ¬ s.Breaks f) ∧
      s.Breaks fault := by
  generalize hfound : some (fault, place) = found at h
  induction h with
  | passed => contradiction
  | failed h =>
    obtain ⟨rfl, -⟩ := Prod.mk.inj (Option.some.inj hfound)
    exact ⟨[], _, rfl, fun f hf => absurd hf List.not_mem_nil, h⟩
  | next hnot _ ih =>
    obtain ⟨before, after, rfl, hbefore, hbroken⟩ := ih hfound
    exact ⟨_ :: before, after, rfl, List.forall_mem_cons.mpr ⟨hnot, hbefore⟩, hbroken⟩

end Signature.Checks

namespace Handler

theorem checks_qualificationFault? (s : Signature) :
    s.Checks [.reservedName, .asynchronous, .generic, .notSafe, .foreignAbi, .variadic]
      (qualificationFault? s) := by
  have written : ∀ ts : List TokenTree, (!ts.isEmpty) = true ↔ ts ≠ [] := by
    intro ts
    rw [Bool.not_eq_true', List.isEmpty_eq_false_iff]
  unfold qualificationFault?
  refine .test List.contains_iff_mem ?_
  refine .test (written s.asyncness) ?_
  refine .test (written s.generics) ?_
  refine .test (written s.unsafety) ?_
  refine .test (written s.abi) ?_
  exact .test (written s.variadic) .passed

theorem checks_outputFault? (s : Signature) : s.Checks [.noReply] (outputFault? s) := by
  unfold outputFault?
  split
  · rename_i houtput
    refine .failed fun arrow type h => ?_
    exact nomatch houtput.symm.trans h
  · rename_i arrow type houtput
    refine .test (Iff.trans type.isUnit_iff ?_) .passed
    constructor
    · intro h arrow' type' houtput'
      cases houtput.symm.trans houtput'
      exact h
    · exact fun h => h arrow type houtput

theorem checks_parameterFault? (s : Signature) :
    s.Checks [.receiver, .tooManyParameters, .parameterType] (parameterFault? s) := by
  unfold parameterFault?
  rw [Signature.splitReceiver_parameters]
  dsimp only
  split
  · rename_i r hr
    rw [Option.filter_eq_some_iff, Bool.not_eq_true', ← Bool.not_eq_true,
      Parameter.isPlainReceiver_iff] at hr
    exact .failed ⟨r, hr⟩
  · rename_i hnone
    have hplain : ¬ s.Breaks .receiver := by
      rintro ⟨r, hr, hnot⟩
      refine hnot ((Parameter.isPlainReceiver_iff r).mp ?_)
      simpa using Option.filter_eq_none_iff.mp hnone r hr
    refine .next hplain ?_
    -- The number of further parameters decides which of the two tests is reached.
    split
    · rename_i hfurther
      refine .next ?_ (.next ?_ .passed)
      · rw [Signature.Breaks, hfurther]
        exact Nat.not_lt_zero 1
      · rintro ⟨p, hp, -⟩
        rw [hfurther] at hp
        exact nomatch hp
    · rename_i p hfurther
      have hfew : ¬ s.Breaks .tooManyParameters := by
        rw [Signature.Breaks, hfurther]
        exact Nat.lt_irrefl 1
      have htype : s.Breaks .parameterType ↔ ¬ p.TakesShared := by
        simp [Signature.Breaks, hfurther]
      refine .next hfew ?_
      split
      · rename_i hshared
        refine .next (fun h => ?_) .passed
        exact htype.mp h ((Parameter.takesSharedReference_iff p).mp hshared)
      · rename_i hnot
        refine .failed (htype.mpr fun h => ?_)
        exact hnot ((Parameter.takesSharedReference_iff p).mpr h)
    · rename_i hfurther
      refine .failed ?_
      rw [Signature.Breaks, hfurther]
      simp

theorem checks_fault? (s : Signature) : s.Checks CommandFault.inOrder (fault? s) := by
  have hall := ((checks_qualificationFault? s).append (checks_outputFault? s)).append
    (checks_parameterFault? s)
  rw [Option.or_assoc] at hall
  exact hall

theorem fault?_eq_none_iff (s : Signature) : fault? s = none ↔ s.KeepsContract := by
  have hchecks := checks_fault? s
  rw [Signature.keepsContract_iff]
  constructor
  · intro hnone fault
    rw [hnone] at hchecks
    exact hchecks.none_of_passed fault fault.mem_inOrder
  · intro hkeeps
    rcases hfault : fault? s with _ | ⟨fault, place⟩
    · rfl
    · rw [hfault] at hchecks
      obtain ⟨-, -, -, -, hbroken⟩ := hchecks.first_of_failed
      exact absurd hbroken (hkeeps fault)

end Handler

/-! ## The call -/

/-- A call of a command, as the body of its handler: through the bot, or through a type. -/
structure CommandCall where
  delegate : Delegate
  method : Word
  arguments : List TokenTree

namespace CommandCall

/-- The call that some tokens are, read from its end, since a type may hold any tokens. -/
def ofTrees? (ts : List TokenTree) : Option CommandCall :=
  match ts.reverse with
  | [.group .parenthesis arguments _, .word method, .mark '.' _ _, .word field, .mark '.' _ _,
      .word self] =>
    if self.text = "self" ∧ field.text = "bot" then some ⟨.instance_, method, arguments⟩ else none
  | .group .parenthesis arguments _ :: .word method :: .mark ':' _ _ :: .mark ':' .joint _ ::
      .mark '>' _ _ :: rest =>
    match rest.reverse with
    | .mark '<' _ _ :: owner => some ⟨.associated ⟨owner⟩, method, arguments⟩
    | _ => none
  | _ => none

theorem ofTrees?_callTrees (h : Handler) :
    ofTrees? h.callTrees = some ⟨h.delegate, h.name, h.arguments⟩ := by
  unfold Handler.callTrees
  rcases h.delegate with _ | owner
  · rfl
  · have hreverse : (angles owner.trees ++ pathMark ++ [TokenTree.word h.name] ++
        parens h.arguments).reverse =
        .group .parenthesis h.arguments .generated :: .word h.name :: .mark ':' .alone .generated ::
          .mark ':' .joint .generated :: .mark '>' .alone .generated ::
            (.mark '<' .alone .generated :: owner.trees).reverse := by
      simp [angles, pathMark, parens, sign, TokenTree.operator, TokenTree.grouped]
    dsimp only
    rw [ofTrees?, hreverse]
    simp

end CommandCall

namespace Handler

/-- The handler is written for a command: its parameter is the event, by a name of its own if the
command takes none, and its body calls the command, with the event if the command takes it. -/
structure Forwards (h : Handler) (c : Command) : Prop where
  name_eq : h.name = c.name
  /-- through the bot exactly when there is a receiver, and through the type otherwise -/
  delegate_eq_instance : h.delegate = .instance_ ↔ c.signature.receiver? ≠ none
  delegate_eq_associated : h.delegate = .associated c.owner ↔ c.signature.receiver? = none
  forwardsEvent_iff : h.forwardsEvent = true ↔ c.signature.furtherParameters ≠ []
  calls : ∃ event body call,
    h.trees =
      Attribute.treesOf c.docs ++ words ["fn"] ++ [.word c.name] ++
        parens
          (receiver ++ comma ++ words [event] ++ sign ':' ++ sign '&' ++
            library ["MessageCreateEvent"]) ++
        c.signature.outputTrees ++ braces body ∧
      CommandCall.ofTrees? body = some call ∧ call.delegate = h.delegate ∧ call.method = c.name ∧
      (call.arguments = words ["event"] ∧ event = "event" ↔ c.signature.furtherParameters ≠ []) ∧
      (call.arguments = [] ∧ event = "_event" ↔ c.signature.furtherParameters = [])

theorem forwards_ofSound (c : Command) : (ofSound c).Forwards c := by
  have hsplit := Signature.splitReceiver_parameters c.signature
  have hdelegate : (ofSound c).delegate =
      if c.signature.receiver?.isSome then .instance_ else .associated c.owner := by
    rw [ofSound, hsplit]
  have hforwards : (ofSound c).forwardsEvent = !c.signature.furtherParameters.isEmpty := by
    rw [ofSound, hsplit]
  have hevent : (ofSound c).forwardsEvent = true ↔ c.signature.furtherParameters ≠ [] := by
    rw [hforwards, Bool.not_eq_true', List.isEmpty_eq_false_iff]
  refine ⟨rfl, ?_, ?_, hevent, ?_⟩
  · rw [hdelegate]
    cases c.signature.receiver? <;> simp
  · rw [hdelegate]
    cases c.signature.receiver? <;> simp
  · refine ⟨_, _, _, rfl, CommandCall.ofTrees?_callTrees (ofSound c), rfl, rfl, ?_⟩
    unfold arguments
    cases hcase : (ofSound c).forwardsEvent with
    | false =>
      have hnone : c.signature.furtherParameters = [] := by
        simpa [hcase] using hevent
      simp [hnone, words]
    | true =>
      simp [hevent.mp hcase, words]

/-- A command has a handler exactly when its signature keeps the contract, and the handler calls it
as the signature says. The fault of every other command is the first one, in the order in which they
are looked for, and names the command. -/
theorem ofCommand_by_contract (c : Command) :
    ((∃ h, (ofCommand c).value = .ok h) ↔ c.signature.KeepsContract) ∧
    (∀ h, (ofCommand c).value = .ok h → h.Forwards c) ∧
    ∀ f, (ofCommand c).value = .error f →
      f.stage = .synthesize ∧ f.declaration = c.owner.display ∧
        ∃ before fault after, CommandFault.inOrder = before ++ fault :: after ∧
          (∀ earlier ∈ before, ¬ c.signature.Breaks earlier) ∧ c.signature.Breaks fault ∧
          f.reason = "command `" ++ c.name.text ++ "`: " ++ fault.message := by
  refine ⟨?_, ?_, ?_⟩
  · rw [← fault?_eq_none_iff]
    constructor
    · rintro ⟨h, hh⟩
      exact ((ofCommand_eq_ok_iff c h).mp hh).1
    · exact fun hnone => ⟨ofSound c, (ofCommand_eq_ok_iff c _).mpr ⟨hnone, rfl⟩⟩
  · intro h hh
    obtain ⟨-, rfl⟩ := (ofCommand_eq_ok_iff c h).mp hh
    exact forwards_ofSound c
  · intro f hf
    have hchecks := checks_fault? c.signature
    rw [value_ofCommand] at hf
    split at hf
    · rename_i fault place hfault
      obtain rfl := Except.error.inj hf
      rw [hfault] at hchecks
      obtain ⟨before, after, horder, hbefore, hbroken⟩ := hchecks.first_of_failed
      exact ⟨rfl, rfl, before, fault, after, horder, hbefore, hbroken, rfl⟩
    · exact nomatch hf

/-- A command of `Greeter` with these words, generics, parameters and this result. -/
def greeterCommand (asyncness generics : List TokenTree) (inputs : List (Parameter × List TokenTree))
    (output : Option (List TokenTree × WrittenType)) : Command where
  owner := ⟨words ["Greeter"]⟩
  signature :=
    { constness := [], asyncness, unsafety := [], abi := []
      functionWord := words ["fn"], name := .made "hello", generics, inputs
      variadic := [], inputsSpan := .generated, output, clause := [] }
  docs := []

/-- `fn hello(&'a self, event: &MessageCreateEvent) -> String` is a command. An asynchronous one with
parameters of its own that takes itself by value and answers nothing is rejected for the first of
these. -/
theorem ofCommand_by_contract_greeter :
    let receiver : Parameter :=
      ⟨[], .receiver (sign '&' ++ [.mark '\'' .joint .generated] ++ words ["a"]) [] (words ["self"]) []⟩
    let owned : Parameter := ⟨[], .receiver [] [] (words ["self"]) []⟩
    let event : Parameter :=
      ⟨[], .typed (words ["event"] ++ sign ':') ⟨sign '&' ++ words ["MessageCreateEvent"]⟩⟩
    let accepted := greeterCommand [] [] [(receiver, comma), (event, [])]
      (some (arrow, ⟨words ["String"]⟩))
    let rejected := greeterCommand (words ["async"]) (angles (words ["T"])) [(owned, [])] none
    (∃ h, (ofCommand accepted).value = .ok h ∧ h.Forwards accepted) ∧
      ∃ f, (ofCommand rejected).value = .error f ∧ f.stage = .synthesize ∧
        ¬ rejected.signature.KeepsContract ∧
        f.reason = "command `hello`: async command handlers are not supported" := by
  intro receiver owned event accepted rejected
  have haccepted : (ofCommand accepted).value = .ok (ofSound accepted) := rfl
  have hrejected : (ofCommand rejected).value =
      .error (.malformed "Greeter" (.command "hello" .asynchronous) .generated) := rfl
  refine ⟨⟨_, haccepted, (ofCommand_by_contract accepted).2.1 _ haccepted⟩, _, hrejected, ?_, ?_, rfl⟩
  · exact ((ofCommand_by_contract rejected).2.2 _ hrejected).1
  · intro hkeeps
    obtain ⟨h, hh⟩ := (ofCommand_by_contract rejected).1.mpr hkeeps
    exact nomatch hrejected.symm.trans hh

end Handler

end CommandBot
