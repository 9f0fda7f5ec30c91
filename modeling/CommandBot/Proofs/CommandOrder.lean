import CommandBot.Proofs.Accepted

/-
  What a dispatcher has for the commands of its bot, and which fault comes first. A dispatcher
  `Serves` methods with one handler and one arm for each, in their order. `ofDeclaration_in_order`:
  a declaration has a dispatcher exactly when every command is accepted and a token source is
  chosen, the dispatcher serves the marked methods of the bot's block, and otherwise the fault is
  that of the first command that is rejected, or, if there is none, that of the configuration.
-/

namespace CommandBot

namespace Declaration

/-- What an impl block is read as: by itself or in a file, or by the attribute of a bot. -/
inductive IsOf (b : ImplBlock) : Declaration → Prop
  | block {n : String} {o : Option String} {d : Declaration} (hd : (ofBlock b n o).value = .ok d) :
    IsOf b d
  | attribute {args : List TokenTree} {d : Declaration} (hd : (ofAttribute args b).value = .ok d) :
    IsOf b d

/-- What a block is resolved as has the type of the block, is named by it, and has its commands. -/
theorem parts_of_ofBlock {b : ImplBlock} {n : String} {o : Option String} {d : Declaration}
    (hd : (ofBlock b n o).value = .ok d) :
    d.selfType = b.selfType ∧ nameOf b.selfType = .ok d.name ∧ d.commands = commandsOf b := by
  unfold ofBlock at hd
  split at hd
  · exact nomatch hd
  · rename_i name hname
    split at hd
    · rw [← Except.ok.inj hd]
      exact ⟨rfl, hname, rfl⟩
    · exact nomatch hd

/-- Attaching an attribute leaves these parts as they are. -/
theorem IsOf.parts {b : ImplBlock} {d : Declaration} (h : d.IsOf b) :
    d.selfType = b.selfType ∧ nameOf b.selfType = .ok d.name ∧ d.commands = commandsOf b := by
  obtain ⟨hd⟩ | ⟨hd⟩ := h
  · exact parts_of_ofBlock hd
  · unfold ofAttribute at hd
    split at hd
    · exact nomatch hd
    · rw [Logged.value_bind, Logged.value_pure] at hd
      rcases hblock : (ofBlock b "" none).value with f | d'
      · rw [hblock] at hd
        exact nomatch hd
      · rw [hblock] at hd
        rw [← Except.ok.inj hd]
        have hparts := parts_of_ofBlock hblock
        exact hparts

theorem IsOf.commands_eq {b : ImplBlock} {d : Declaration} (h : d.IsOf b) :
    d.commands = commandsOf b := h.parts.2.2

theorem IsOf.nameOf_eq {b : ImplBlock} {d : Declaration} (h : d.IsOf b) :
    nameOf d.selfType = .ok d.name := by
  rw [h.parts.1, h.parts.2.1]

/-- The commands of a bot belong to its type. -/
theorem IsOf.owner_eq {b : ImplBlock} {d : Declaration} (h : d.IsOf b) :
    ∀ c ∈ d.commands, c.owner = d.selfType := by
  rw [h.commands_eq, h.parts.1, commandsOf, List.forall_mem_map]
  exact fun m _ => rfl

end Declaration

namespace Dispatcher

/-! ## Dispatchers -/

/-- One handler and one arm for each of some methods, which are given by their signatures and their
documentation, in the order of the methods. -/
structure Serves (u : Dispatcher) (methods : List (Signature × List Attribute)) : Prop where
  handlers_length : u.handlers.length = methods.length
  arms_length : u.table.arms.length = methods.length
  each : ∀ (i : Nat) (s : Signature) (docs : List Attribute), methods[i]? = some (s, docs) →
    ∃ h, u.handlers[i]? = some h ∧ u.table.arms[i]? = some ⟨h.key, h.name⟩ ∧
      h.name = s.name ∧ h.key = "!" ++ s.name.text ∧ h.output = s.outputTrees ∧ h.docs = docs

/-- A dispatcher with the names, the place and the token of a declared bot. -/
structure BelongsTo (u : Dispatcher) (d : Declaration) : Prop where
  namespace_eq : u.namespace_ = d.namespace_
  sourceName_eq : u.sourceName = d.name
  sourceType_eq : u.sourceType = d.selfType
  origin_eq : u.origin = d.origin
  token_eq : TokenSource.ofDeclaration d = .ok u.token
  name_of_raw : ∀ s, d.name.text = "r#" ++ s → u.name = "Magicord" ++ s
  name_of_plain : (∀ s, d.name.text ≠ "r#" ++ s) → u.name = "Magicord" ++ d.name.text

theorem bare_of_raw {w : Word} {s : String} (h : w.text = "r#" ++ s) : w.bare = s := by
  have htext : w.text.toList = 'r' :: '#' :: s.toList := by
    rw [h, String.toList_append]
    rfl
  unfold Word.bare
  rw [htext]
  exact String.ofList_toList

theorem bare_of_plain {w : Word} (h : ∀ s, w.text ≠ "r#" ++ s) : w.bare = w.text := by
  unfold Word.bare
  split
  · rename_i rest htext
    refine absurd ?_ (h (String.ofList rest))
    simp [← String.toList_inj, htext]
  · rfl

theorem belongsTo_ofSound {d : Declaration} {token : TokenSource}
    (h : TokenSource.ofDeclaration d = .ok token) : (ofSound d token).BelongsTo d where
  namespace_eq := rfl
  sourceName_eq := rfl
  sourceType_eq := rfl
  origin_eq := rfl
  token_eq := h
  name_of_raw _ hs := congrArg ("Magicord" ++ ·) (bare_of_raw hs)
  name_of_plain hs := congrArg ("Magicord" ++ ·) (bare_of_plain hs)

theorem serves_ofSound (d : Declaration) (token : TokenSource) :
    (ofSound d token).Serves (d.commands.map fun c => (c.signature, c.docs)) where
  handlers_length := by
    rw [List.length_map]
    exact List.length_map _
  arms_length := by
    rw [List.length_map]
    exact (List.length_map _).trans (List.length_map _)
  each i s docs hi := by
    rw [List.getElem?_map, Option.map_eq_some_iff] at hi
    obtain ⟨c, hc, hpair⟩ := hi
    obtain ⟨rfl, rfl⟩ := Prod.mk.inj hpair
    have hhandler : (ofSound d token).handlers[i]? = some (Handler.ofSound c) := by
      show (d.commands.map Handler.ofSound)[i]? = _
      rw [List.getElem?_map, hc]
      rfl
    refine ⟨Handler.ofSound c, hhandler, ?_, rfl, rfl, rfl, rfl⟩
    show ((ofSound d token).handlers.map fun h => (⟨h.key, h.name⟩ : Arm))[i]? = _
    rw [List.getElem?_map, hhandler]
    rfl

/-! ## The first fault -/

/-- Why a command is rejected, if it is. -/
def rejection? (c : Command) : Option Fault :=
  match (Handler.ofCommand c).value with
  | .error f => some f
  | .ok _ => none

theorem rejection?_eq_some_iff (c : Command) (f : Fault) :
    rejection? c = some f ↔ (Handler.ofCommand c).value = .error f := by
  unfold rejection?
  rcases (Handler.ofCommand c).value with g | h <;> simp

theorem rejection?_eq_none_iff (c : Command) :
    rejection? c = none ↔ ∃ h, (Handler.ofCommand c).value = .ok h := by
  unfold rejection?
  rcases (Handler.ofCommand c).value with g | h <;> simp

theorem fault?_of_rejection? {c : Command} (h : rejection? c = none) :
    Handler.fault? c.signature = none := by
  obtain ⟨handler, hc⟩ := (rejection?_eq_none_iff c).mp h
  exact ((Handler.ofCommand_eq_ok_iff c handler).mp hc).1

/-- Synthesis stops at the first command that is rejected. -/
theorem synthesizeAll_eq_error_iff (cs : List Command) (f : Fault) :
    (synthesizeAll cs).value = .error f ↔ cs.findSome? rejection? = some f := by
  induction cs with
  | nil => exact iff_of_false (fun h => nomatch h) (fun h => nomatch h)
  | cons c rest ih =>
    rw [value_synthesizeAll_cons, List.findSome?_cons]
    rcases hc : (Handler.ofCommand c).value with g | h
    · rw [(rejection?_eq_some_iff c g).mpr hc]
      exact ⟨fun h => congrArg some (Except.error.inj h), fun h => congrArg _ (Option.some.inj h)⟩
    · rw [(rejection?_eq_none_iff c).mpr ⟨h, hc⟩, ← ih]
      rcases (synthesizeAll rest).value with g | hs <;> simp [Except.bind, Except.map]

theorem value_ofDeclaration_of_rejected {d : Declaration} {f : Fault}
    (h : d.commands.findSome? rejection? = some f) : (ofDeclaration d).value = .error f := by
  rw [value_ofDeclaration, (synthesizeAll_eq_error_iff d.commands f).mpr h]
  rfl

/-- Without a rejected command it is the configuration that decides. -/
theorem value_ofDeclaration_of_accepted {d : Declaration}
    (h : ∀ c ∈ d.commands, rejection? c = none) :
    (ofDeclaration d).value = (TokenSource.ofDeclaration d).map (ofSound d) := by
  have hsound : ∀ c ∈ d.commands, Handler.fault? c.signature = none := fun c hc =>
    fault?_of_rejection? (h c hc)
  rw [value_ofDeclaration, (synthesizeAll_eq_ok_iff d.commands _).mpr ⟨hsound, rfl⟩]
  exact value_assemble d _ _

/-- The commands of a declaration are synthesized in the order of their methods and come before the
configuration: the dispatcher of an accepted declaration has one handler and one arm for each marked
method of the block, and the fault of a rejected one is that of its first rejected command, or that
of its configuration if it has no rejected command. -/
theorem ofDeclaration_in_order (d : Declaration) :
    ((∃ u, (ofDeclaration d).value = .ok u) ↔
      (∀ c ∈ d.commands, ∃ h, (Handler.ofCommand c).value = .ok h) ∧
        ∃ token, TokenSource.ofDeclaration d = .ok token) ∧
    (∀ u, (ofDeclaration d).value = .ok u →
      u.BelongsTo d ∧ u.Serves (d.commands.map fun c => (c.signature, c.docs)) ∧
        ∀ b, d.IsOf b → u.Serves ((b.methods.filter Method.isCommand).map fun m =>
          (m.signature, m.attributes.filter Attribute.isDoc))) ∧
    ∀ f, (ofDeclaration d).value = .error f →
      (∃ before c after, d.commands = before ++ c :: after ∧
        (∀ c' ∈ before, ∃ h, (Handler.ofCommand c').value = .ok h) ∧
        (Handler.ofCommand c).value = .error f) ∨
      (∀ c ∈ d.commands, ∃ h, (Handler.ofCommand c).value = .ok h) ∧
        TokenSource.ofDeclaration d = .error f := by
  simp only [← rejection?_eq_none_iff, ← rejection?_eq_some_iff]
  refine ⟨?_, fun u hu => ?_, fun f hf => ?_⟩
  · constructor
    · rintro ⟨u, hu⟩
      obtain ⟨hsound, token, htoken, -⟩ := (ofDeclaration_eq_ok_iff d u).mp hu
      refine ⟨fun c hc => ?_, token, htoken⟩
      exact (rejection?_eq_none_iff c).mpr
        ⟨_, (Handler.ofCommand_eq_ok_iff c _).mpr ⟨hsound c hc, rfl⟩⟩
    · rintro ⟨haccepted, token, htoken⟩
      exact ⟨ofSound d token, by rw [value_ofDeclaration_of_accepted haccepted, htoken]; rfl⟩
  · obtain ⟨-, token, htoken, rfl⟩ := (ofDeclaration_eq_ok_iff d u).mp hu
    refine ⟨belongsTo_ofSound htoken, serves_ofSound d token, fun b hb => ?_⟩
    have hserves := serves_ofSound d token
    rw [hb.commands_eq, Declaration.commandsOf, List.map_map] at hserves
    exact hserves
  · rcases hfirst : d.commands.findSome? rejection? with _ | g
    · have haccepted := List.findSome?_eq_none_iff.mp hfirst
      rw [value_ofDeclaration_of_accepted haccepted] at hf
      refine .inr ⟨haccepted, ?_⟩
      rcases htoken : TokenSource.ofDeclaration d with g | token
      · rw [htoken] at hf
        exact congrArg Except.error (Except.error.inj hf)
      · rw [htoken] at hf
        exact nomatch hf
    · rw [value_ofDeclaration_of_rejected hfirst] at hf
      obtain rfl := Except.error.inj hf
      obtain ⟨before, c, after, hcs, hc, hbefore⟩ := List.findSome?_eq_some_iff.mp hfirst
      exact .inl ⟨before, c, after, hcs, hbefore, hc⟩

/-- A method that takes nothing and answers, with these attributes. -/
def answering (attributes : List Attribute) (asyncness : List TokenTree) (name : String) :
    Member :=
  .method
    { attributes, qualifiers := []
      signature :=
        { constness := [], asyncness, unsafety := [], abi := []
          functionWord := [.made "fn"], name := .made name, generics := []
          inputs := [], variadic := [], inputsSpan := .generated
          output := some (TokenTree.operator ['-', '>'], ⟨[.made "String"]⟩), clause := [] }
      statements := [], bodySpan := .generated }

/-- The block of a bot with these attributes and methods. -/
def loopBlock (attributes : List Attribute) (members : List Member) : ImplBlock where
  attributes := attributes
  words := [.made "impl"]
  generics := []
  implemented := none
  selfType := ⟨[.made "r#loop"]⟩
  clause := []
  members := members
  bodySpan := .generated

/-- What such a block declares. -/
def loopBot (attributes : List Attribute) (members : List Member) : Declaration where
  namespace_ := ""
  name := .made "r#loop"
  selfType := ⟨[.made "r#loop"]⟩
  attributes := attributes
  commands := Declaration.commandsOf (loopBlock attributes members)
  origin := none

/-- A command, a method that is none, and two commands that are rejected: the first since it is
asynchronous, the second for its name. -/
def mixedMembers : List Member :=
  [answering [.make "doc" [], .make commandMarker []] [] "hello",
    answering [] [.made "async"] "helper",
    answering [.make commandMarker []] [.made "async"] "later",
    answering [.make commandMarker []] [] "run"]

/-- The bot with all these methods has no configuration either; the one with the first two has a
token. -/
theorem ofDeclaration_in_order_mixed :
    let rejected := loopBot [] mixedMembers
    let f : Fault := .malformed "r#loop" (.command "later" .asynchronous) .generated
    let attributes : List Attribute :=
      [.make botMarker [.made "token", .mark '=' .alone .generated, .literal "\"abc\"" .generated]]
    let accepted := loopBot attributes (mixedMembers.take 2)
    (rejected.IsOf (loopBlock [] mixedMembers) ∧ (ofDeclaration rejected).value = .error f ∧
      ∃ before c after, rejected.commands = before ++ c :: after ∧
        (Handler.ofCommand c).value = .error f) ∧
    accepted.IsOf (loopBlock attributes (mixedMembers.take 2)) ∧
      ∃ u, (ofDeclaration accepted).value = .ok u ∧ u.name = "Magicordloop" ∧
        u.handlers.length = 1 := by
  intro rejected f attributes accepted
  have hrejected : (ofDeclaration rejected).value = .error f := rfl
  have haccepted : (ofDeclaration accepted).value = .ok (ofSound accepted (.literal "abc")) := rfl
  have hblock : accepted.IsOf (loopBlock attributes (mixedMembers.take 2)) :=
    .block (n := "") (o := none) rfl
  refine ⟨⟨.block (n := "") (o := none) rfl, hrejected, ?_⟩, hblock, _, haccepted, ?_⟩
  · rcases (ofDeclaration_in_order rejected).2.2 f hrejected with
      ⟨before, c, after, hcs, -, hc⟩ | ⟨-, htoken⟩
    · exact ⟨before, c, after, hcs, hc⟩
    · have hmissing : TokenSource.ofDeclaration rejected =
          .error (.configurationMissing "r#loop" .generated) := rfl
      exact nomatch Except.error.inj (hmissing.symm.trans htoken)
  · obtain ⟨hbelongs, -, hserves⟩ := (ofDeclaration_in_order accepted).2.1 _ haccepted
    exact ⟨hbelongs.name_of_raw "loop" rfl, (hserves _ hblock).handlers_length⟩

end Dispatcher

end CommandBot
