import CommandBot.Proofs.AttributeHost
import CommandBot.Proofs.UnplacedCode

/-
  Generation without places. Where the tokens of a bot stand plays no part in what is generated for
  it: a stage that is given its input without places puts out the same, and comes to the same result
  without places or to a fault that differs in its place alone (`Mirrors`).
-/

namespace CommandBot

open TokenTree

/-! ## Verdicts -/

namespace Fault

/-- Faults that differ in their places alone are reported alike. -/
theorem reported_eq {f f' : Fault} (h : f'.unplaced = f.unplaced) :
    f'.declaration = f.declaration ∧ f'.stage = f.stage ∧ f'.message = f.message := by
  refine ⟨?_, ?_, ?_⟩
  · rw [← f'.declaration_unplaced, h, f.declaration_unplaced]
  · rw [← f'.stage_unplaced, h, f.stage_unplaced]
  · rw [← f'.message_unplaced, h, f.message_unplaced]

/-- Two results are both faults, or neither is, if one is `f` of the other but for places. -/
theorem cases_of_mapError_eq {α β : Type} {f : α → β} {r : Except Fault α} {r' : Except Fault β}
    (h : r'.mapError unplaced = (r.map f).mapError unplaced) :
    (∃ e e', r = .error e ∧ r' = .error e' ∧ e'.unplaced = e.unplaced) ∨
      ∃ a, r = .ok a ∧ r' = .ok (f a) := by
  rcases r with e | a
  · rcases r' with e' | b
    · exact .inl ⟨e, e', rfl, rfl, Except.error.inj h⟩
    · exact nomatch h
  · rcases r' with e' | b
    · exact nomatch h
    · exact .inr ⟨a, rfl, congrArg Except.ok (Except.ok.inj h)⟩

end Fault

/-! ## Stages -/

/-- One stage after the other, as long as there is no fault. -/
def Logged.andThen {ε α β : Type} (m : Logged (Except ε α)) (k : α → Logged (Except ε β)) :
    Logged (Except ε β) :=
  m >>= fun
    | .error e => pure (.error e)
    | .ok a => k a

/-- The second stage puts out what the first one does; its result is `f` of that of the first one,
and its fault differs in the place alone. -/
structure Mirrors {α β : Type} (f : α → β) (m : Logged (Except Fault α))
    (m' : Logged (Except Fault β)) : Prop where
  outputs_eq : m'.outputs = m.outputs
  value_eq : m'.value.mapError Fault.unplaced = (m.value.map f).mapError Fault.unplaced

namespace Mirrors

variable {α α' β β' : Type} {f : α → α'} {g : β → β'}

theorem ok (a : α) (outputs : List Output) :
    Mirrors f ⟨.ok a, outputs⟩ ⟨.ok (f a), outputs⟩ :=
  ⟨rfl, rfl⟩

theorem error {e e' : Fault} (h : e'.unplaced = e.unplaced) (outputs : List Output) :
    Mirrors f ⟨.error e, outputs⟩ ⟨.error e', outputs⟩ :=
  ⟨rfl, congrArg Except.error h⟩

theorem andThen {m : Logged (Except Fault α)} {m' : Logged (Except Fault α')}
    {k : α → Logged (Except Fault β)} {k' : α' → Logged (Except Fault β')} (h : Mirrors f m m')
    (hk : ∀ a, Mirrors g (k a) (k' (f a))) : Mirrors g (m.andThen k) (m'.andThen k') := by
  obtain ⟨value, outputs⟩ := m
  obtain ⟨value', outputs'⟩ := m'
  obtain ⟨rfl, hvalue⟩ := h
  rcases Fault.cases_of_mapError_eq hvalue with ⟨e, e', rfl, rfl, he⟩ | ⟨a, rfl, rfl⟩
  · exact ⟨rfl, congrArg Except.error he⟩
  · have hnext := hk a
    exact ⟨congrArg (outputs' ++ ·) hnext.outputs_eq, hnext.value_eq⟩

end Mirrors

/-! ## Types and attributes -/

namespace WrittenType

theorem display_unplaced (t : WrittenType) : t.unplaced.display = t.display :=
  congrArg String.ofList (charsOf_unplacedAll t.trees)

theorem isUnit_unplaced (t : WrittenType) : t.unplaced.isUnit = t.isUnit := by
  obtain ⟨_ | ⟨t, _ | ⟨t', rest⟩⟩⟩ := t
  · rw [unplaced, unplacedAll_nil]
  · rcases t with _ | _ | _ | ⟨d, _ | ⟨t, content⟩, s⟩
    all_goals simp [unplaced, isUnit, unplacedAll, TokenTree.unplaced]
    cases d <;> rfl
  · simp [unplaced, isUnit, unplacedAll]

theorem isSharedReference_unplaced (t : WrittenType) :
    t.unplaced.isSharedReference = t.isSharedReference := by
  have hmut := fun ts => Grammar.wordAhead_unplacedAll ts "mut"
  fun_cases isSharedReference t with
  | case1 spacing s spacing' s' x rest h =>
    simp only [unplaced, h, unplacedAll_cons, unplaced_mark, isSharedReference, hmut]
  | case2 spacing s rest hne h =>
    simp only [unplaced, h, unplacedAll_cons, unplaced_mark, isSharedReference, ← hmut rest]
    split
    · rename_i heq
      obtain ⟨t₁, rest₁, rfl, ht₁, heq⟩ := exists_of_unplacedAll_eq_cons (List.cons.inj heq).2
      obtain ⟨t₂, rest₂, rfl, -, -⟩ := exists_of_unplacedAll_eq_cons heq
      obtain ⟨s₁, rfl⟩ := exists_of_unplaced_eq_mark ht₁
      exact (hne _ _ _ _ rfl).elim
    · rename_i heq
      rw [(List.cons.inj heq).2]
    · rename_i hno
      exact (hno _ _ _ rfl).elim
  | case3 hne hne' =>
    unfold isSharedReference unplaced
    split
    · rename_i heq
      obtain ⟨t₁, rest₁, h, ht₁, -⟩ := exists_of_unplacedAll_eq_cons heq
      obtain ⟨s₁, rfl⟩ := exists_of_unplaced_eq_mark ht₁
      exact (hne' _ _ _ h).elim
    · rename_i heq
      obtain ⟨t₁, rest₁, h, ht₁, -⟩ := exists_of_unplacedAll_eq_cons heq
      obtain ⟨s₁, rfl⟩ := exists_of_unplaced_eq_mark ht₁
      exact (hne' _ _ _ h).elim
    · rfl

end WrittenType

namespace Attribute

theorem isMarker_unplaced (a : Attribute) (name : String) :
    a.unplaced.isMarker name = a.isMarker name := by
  have hlast : a.unplaced.path.getLast? = a.path.getLast?.map TokenTree.unplaced := by
    show (unplacedAll a.path).getLast? = _
    rw [unplacedAll_eq_map, List.getLast?_map]
  unfold isMarker
  rw [hlast]
  rcases a.path.getLast? with _ | t
  · rfl
  · cases t <;> simp [TokenTree.unplaced, Word.made]

theorem isDoc_unplaced (a : Attribute) : a.unplaced.isDoc = a.isDoc := by
  unfold isDoc isNamed unplaced
  rcases a.path with _ | ⟨t, _ | ⟨t', rest⟩⟩
  · simp [unplacedAll]
  · cases t <;> simp [unplacedAll, TokenTree.unplaced, Word.made]
  · simp [unplacedAll]

end Attribute

/-! ## Commands -/

/-- A command whose pieces stand nowhere. -/
def Command.unplaced (c : Command) : Command :=
  ⟨c.owner.unplaced, c.signature.unplaced, c.docs.map Attribute.unplaced⟩

namespace Handler

theorem parameters_unplaced (s : Signature) :
    parameters s.unplaced = (parameters s).map Parameter.unplaced := by
  unfold parameters Signature.unplaced
  rw [List.map_map, List.map_map]
  rfl

theorem isReceiver_unplaced (p : Parameter) : p.unplaced.isReceiver = p.isReceiver := by
  obtain ⟨attributes, form⟩ := p
  cases form <;> rfl

theorem splitReceiver_unplaced (ps : List Parameter) :
    splitReceiver (ps.map Parameter.unplaced) =
      ((splitReceiver ps).1.map Parameter.unplaced, (splitReceiver ps).2.map Parameter.unplaced) := by
  rcases ps with _ | ⟨p, rest⟩
  · rfl
  · rw [List.map_cons, splitReceiver, splitReceiver, isReceiver_unplaced]
    split <;> rfl

theorem isPlainReceiver_unplaced (p : Parameter) :
    isPlainReceiver p.unplaced.form = isPlainReceiver p.form := by
  obtain ⟨attributes, form⟩ := p
  cases form with
  | receiver reference mutability self annotation =>
    simp only [Parameter.unplaced, ParameterForm.unplaced, isPlainReceiver, isEmpty_unplacedAll]
  | typed pattern type => rfl

theorem takesSharedReference_unplaced (p : Parameter) :
    takesSharedReference p.unplaced = takesSharedReference p := by
  obtain ⟨attributes, form⟩ := p
  cases form with
  | receiver reference mutability self annotation => rfl
  | typed pattern type => exact type.isSharedReference_unplaced

theorem qualificationFault?_unplaced (s : Signature) :
    (qualificationFault? s.unplaced).map Prod.fst = (qualificationFault? s).map Prod.fst := by
  unfold qualificationFault?
  simp only [Signature.unplaced, isEmpty_unplacedAll, Word.unplaced, Word.made,
    apply_ite (Option.map Prod.fst), Option.map_some, Option.map_none]

theorem outputFault?_unplaced (s : Signature) :
    (outputFault? s.unplaced).map Prod.fst = (outputFault? s).map Prod.fst := by
  unfold outputFault? Signature.unplaced
  rcases s.output with _ | ⟨arrow, type⟩
  · rfl
  · simp only [Option.map_some, Signature.unplacedOutput, WrittenType.isUnit_unplaced,
      apply_ite (Option.map Prod.fst)]

theorem parameterFault?_unplaced (s : Signature) :
    (parameterFault? s.unplaced).map Prod.fst = (parameterFault? s).map Prod.fst := by
  unfold parameterFault?
  rw [parameters_unplaced, splitReceiver_unplaced]
  obtain ⟨receiver, others⟩ := splitReceiver (parameters s)
  have hreceiver : (receiver.map Parameter.unplaced).filter (fun r => !isPlainReceiver r.form) =
      (receiver.filter fun r => !isPlainReceiver r.form).map Parameter.unplaced := by
    rcases receiver with _ | r
    · rfl
    · simp only [Option.map_some, Option.filter_some, isPlainReceiver_unplaced]
      split <;> rfl
  dsimp only
  rw [hreceiver]
  generalize receiver.filter (fun r => !isPlainReceiver r.form) = wrong
  rcases wrong with _ | r
  · rcases others with _ | ⟨p, _ | ⟨p', rest⟩⟩
    · rfl
    · simp only [Option.map_none, List.map_cons, List.map_nil, takesSharedReference_unplaced,
        apply_ite (Option.map Prod.fst), Option.map_some]
    · rfl
  · rfl

/-- The contract does not depend on places. -/
theorem fault?_unplaced (s : Signature) :
    (fault? s.unplaced).map Prod.fst = (fault? s).map Prod.fst := by
  unfold fault?
  rw [Option.map_or, Option.map_or, Option.map_or, Option.map_or, qualificationFault?_unplaced,
    outputFault?_unplaced, parameterFault?_unplaced]

theorem ofSound_unplaced (c : Command) : ofSound c.unplaced = (ofSound c).unplaced := by
  have houtput : c.unplaced.signature.outputTrees = unplacedAll c.signature.outputTrees := by
    show c.signature.unplaced.outputTrees = _
    unfold Signature.outputTrees Signature.unplaced
    rcases c.signature.output with _ | ⟨arrow, type⟩
    · exact unplacedAll_nil.symm
    · exact (unplacedAll_append arrow type.trees).symm
  have hparameters : parameters c.unplaced.signature = _ := parameters_unplaced c.signature
  unfold ofSound
  rw [hparameters, splitReceiver_unplaced]
  obtain ⟨receiver, others⟩ := splitReceiver (parameters c.signature)
  simp only [Handler.unplaced, Option.isSome_map, List.isEmpty_map, houtput]
  congr 1
  split <;> rfl

theorem mirrors_ofCommand (c : Command) :
    Mirrors Handler.unplaced (ofCommand c) (ofCommand c.unplaced) := by
  have hfault := fault?_unplaced c.signature
  have hdisplay := c.owner.display_unplaced
  unfold ofCommand
  rw [show c.unplaced.signature = c.signature.unplaced from rfl, ofSound_unplaced]
  rcases hleft : fault? c.signature with _ | ⟨fault, place⟩
  · rw [hleft, Option.map_none, Option.map_eq_none_iff] at hfault
    rw [hfault]
    exact .ok (ofSound c) _
  · rw [hleft, Option.map_some, Option.map_eq_some_iff] at hfault
    obtain ⟨⟨fault', place'⟩, hright, rfl⟩ := hfault
    rw [hright]
    refine .error ?_ []
    show Fault.malformed c.owner.unplaced.display _ _ = Fault.malformed c.owner.display _ _
    rw [hdisplay]
    rfl

end Handler

/-! ## Dispatchers -/

namespace Dispatcher

theorem synthesizeAll_cons (c : Command) (rest : List Command) :
    synthesizeAll (c :: rest) = (Handler.ofCommand c).andThen fun h =>
      (synthesizeAll rest).andThen fun hs => pure (.ok (h :: hs)) := by
  rw [synthesizeAll]
  refine congrArg (Handler.ofCommand c >>= ·) (funext fun r => ?_)
  rcases r with f | h
  · rfl
  · refine congrArg (synthesizeAll rest >>= ·) (funext fun r => ?_)
    rcases r with f | hs <;> rfl

theorem mirrors_synthesizeAll (cs : List Command) :
    Mirrors (List.map Handler.unplaced) (synthesizeAll cs)
      (synthesizeAll (cs.map Command.unplaced)) := by
  induction cs with
  | nil => exact .ok [] []
  | cons c rest ih =>
    rw [List.map_cons, synthesizeAll_cons, synthesizeAll_cons]
    exact (Handler.mirrors_ofCommand c).andThen fun h => ih.andThen fun hs => .ok (h :: hs) []

end Dispatcher

namespace DispatchTable

theorem ofHandlers_unplaced (hs : List Handler) :
    ofHandlers (hs.map Handler.unplaced) = (ofHandlers hs).unplaced := by
  unfold ofHandlers unplaced
  rw [List.map_map, List.map_map]
  rfl

theorem keys_unplaced (t : DispatchTable) : t.unplaced.keys = t.keys := by
  unfold keys unplaced
  rw [List.map_map]
  rfl

theorem outputs_build_unplaced (hs : List Handler) :
    (build (hs.map Handler.unplaced)).outputs = (build hs).outputs := by
  have hevent : (ofHandlers hs).unplaced.builtEvent = (ofHandlers hs).builtEvent := by
    unfold builtEvent unplaced
    rw [List.length_map]
  have hduplicates : (ofHandlers hs).unplaced.duplicateKeys = (ofHandlers hs).duplicateKeys := by
    unfold duplicateKeys
    rw [keys_unplaced]
  unfold build
  rw [ofHandlers_unplaced]
  dsimp only
  rw [hevent, hduplicates]

end DispatchTable

/-- Declarations that differ in places and in the attributes of the bot. -/
structure Declaration.DiffersInAttributes (d d' : Declaration) : Prop where
  namespace_eq : d'.namespace_ = d.namespace_
  name_eq : d'.name = d.name.unplaced
  selfType_eq : d'.selfType = d.selfType.unplaced
  commands_eq : d'.commands = d.commands.map Command.unplaced
  origin_eq : d'.origin = d.origin

namespace Dispatcher

/-- A dispatcher whose pieces stand nowhere, with another source of its token. -/
def withToken (f : TokenSource → TokenSource) (u : Dispatcher) : Dispatcher :=
  { u.unplaced with sourceName := u.sourceName.unplaced, token := f u.token }

theorem ofDeclaration_eq_andThen (d : Declaration) :
    ofDeclaration d = (synthesizeAll d.commands).andThen fun hs =>
      DispatchTable.build hs >>= assemble d hs := by
  rw [ofDeclaration]
  refine congrArg (synthesizeAll d.commands >>= ·) (funext fun r => ?_)
  rcases r with f | hs <;> rfl

variable {d d' : Declaration} {f : TokenSource → TokenSource}

theorem mirrors_assemble (h : d.DiffersInAttributes d')
    (htoken : (TokenSource.ofDeclaration d').mapError Fault.unplaced =
      ((TokenSource.ofDeclaration d).map f).mapError Fault.unplaced) (hs : List Handler) :
    Mirrors (withToken f) (assemble d hs (.ofHandlers hs))
      (assemble d' (hs.map Handler.unplaced) (DispatchTable.ofHandlers hs).unplaced) := by
  have hname : d'.unitName = d.unitName := by
    unfold Declaration.unitName
    rw [h.name_eq]
    rfl
  unfold assemble
  rcases Fault.cases_of_mapError_eq htoken with ⟨e, e', he, he', hplace⟩ | ⟨token, ht, ht'⟩
  · rw [he, he']
    exact .error hplace []
  · rw [ht, ht']
    dsimp only
    rw [hname, h.namespace_eq, h.name_eq, h.selfType_eq, h.origin_eq, List.length_map]
    exact ⟨rfl, rfl⟩

/-- What is generated depends on the bot's attributes through the source of its token alone, and
on places not at all. -/
theorem mirrors_ofDeclaration (h : d.DiffersInAttributes d')
    (htoken : (TokenSource.ofDeclaration d').mapError Fault.unplaced =
      ((TokenSource.ofDeclaration d).map f).mapError Fault.unplaced) :
    Mirrors (withToken f) (ofDeclaration d) (ofDeclaration d') := by
  rw [ofDeclaration_eq_andThen, ofDeclaration_eq_andThen, h.commands_eq]
  refine (mirrors_synthesizeAll d.commands).andThen fun hs => ?_
  have hassemble := mirrors_assemble h htoken hs
  have houtputs := DispatchTable.outputs_build_unplaced hs
  have hvalue : (DispatchTable.build (hs.map Handler.unplaced)).value =
      (DispatchTable.ofHandlers hs).unplaced := DispatchTable.ofHandlers_unplaced hs
  refine ⟨?_, ?_⟩
  · rw [Logged.outputs_bind, Logged.outputs_bind, houtputs, hvalue]
    exact congrArg _ hassemble.outputs_eq
  · rw [Logged.value_bind, Logged.value_bind, hvalue]
    exact hassemble.value_eq

end Dispatcher

/-! ## Blocks -/

namespace Method

theorem isCommand_unplaced (m : Method) : m.unplaced.isCommand = m.isCommand := by
  unfold isCommand unplaced
  rw [List.any_map]
  exact congrArg (List.any m.attributes) (funext fun a => a.isMarker_unplaced commandMarker)

theorem docs_unplaced (m : Method) : m.unplaced.docs = m.docs.map Attribute.unplaced := by
  unfold docs unplaced
  rw [List.filter_map]
  exact congrArg (fun p => (m.attributes.filter p).map Attribute.unplaced)
    (funext fun a => a.isDoc_unplaced)

end Method

namespace Declaration

theorem commandsOf_unplaced (b : ImplBlock) :
    commandsOf b.unplaced = (commandsOf b).map Command.unplaced := by
  unfold commandsOf
  rw [ImplBlock.methods_unplaced, List.filter_map, List.map_map, List.map_map]
  have hcommand : Method.isCommand ∘ Method.unplaced = Method.isCommand :=
    funext Method.isCommand_unplaced
  rw [hcommand]
  refine List.map_congr_left fun m _ => ?_
  show Command.mk _ _ m.unplaced.docs = Command.mk _ _ (m.docs.map Attribute.unplaced)
  rw [m.docs_unplaced]
  rfl

theorem nameOf_unplaced (t : WrittenType) :
    (nameOf t.unplaced).mapError Fault.unplaced =
      ((nameOf t).map Word.unplaced).mapError Fault.unplaced := by
  unfold nameOf
  rw [t.lastSegment?_unplaced, t.display_unplaced]
  rcases t.lastSegment? with _ | s
  · rfl
  · simp only [Option.map_some, Segment.unplaced, isEmpty_unplacedAll]
    split <;> rfl

end Declaration

end CommandBot
