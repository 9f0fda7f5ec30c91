import CommandBot.Proofs.CommandOrder
import CommandBot.Proofs.NamedTypes
import CommandBot.Proofs.Placement

/-
  The bot that a fault names. Configuration and emission name a bot by its simple name, but a
  rejected command names the type that it belongs to, as the block writes it. `declaration_of_fails`:
  whatever stage a bot fails at, the fault names it by its simple name, save that of a command of a
  bot whose type is written as a longer path; `exists_fails_misnamed` is such a bot.
-/

namespace CommandBot

/-! ## Each stage -/

namespace TokenSource

theorem names_of_given {bot : String} {a : Attribute} {f : Fault} (h : given bot a = .error f) :
    f.declaration = bot ∧ f.stage = .assemble := by
  unfold given at h
  split at h
  · exact nomatch h
  · split at h
    · exact nomatch h
    · cases h
      exact ⟨rfl, rfl⟩
  · cases h
    exact ⟨rfl, rfl⟩

theorem names_of_choose {bot : String} {a : Attribute} {g : Given} {f : Fault}
    (h : choose bot a g = .error f) : f.declaration = bot ∧ f.stage = .assemble := by
  unfold choose at h
  split at h
  · exact nomatch h
  · exact nomatch h
  · cases h
    exact ⟨rfl, rfl⟩
  · cases h
    exact ⟨rfl, rfl⟩

/-- A bot without a token source is named by its simple name. -/
theorem names_of_ofDeclaration {d : Declaration} {f : Fault} (h : ofDeclaration d = .error f) :
    f.declaration = d.name.text ∧ f.stage = .assemble := by
  unfold ofDeclaration at h
  split at h
  · cases h
    exact ⟨rfl, rfl⟩
  · rename_i a _
    cases hgiven : given d.name.text a with
    | error g =>
      rw [hgiven] at h
      cases h
      exact names_of_given hgiven
    | ok g =>
      rw [hgiven] at h
      exact names_of_choose h

end TokenSource

/-- A rejected command names the type that it belongs to. -/
theorem Handler.names_of_ofCommand {c : Command} {f : Fault} (h : (ofCommand c).value = .error f) :
    f.declaration = c.owner.display ∧ f.stage = .synthesize := by
  rw [value_ofCommand] at h
  split at h
  · cases h
    exact ⟨rfl, rfl⟩
  · exact nomatch h

theorem Dispatcher.exists_of_ofDeclaration {d : Declaration} {f : Fault}
    (h : (ofDeclaration d).value = .error f) :
    (∃ c ∈ d.commands, (Handler.ofCommand c).value = .error f) ∨
      TokenSource.ofDeclaration d = .error f := by
  cases hfirst : d.commands.findSome? rejection? with
  | some g =>
    rw [value_ofDeclaration_of_rejected hfirst] at h
    cases h
    obtain ⟨c, hc, hrejected⟩ := List.exists_of_findSome?_eq_some hfirst
    exact .inl ⟨c, hc, (rejection?_eq_some_iff c f).mp hrejected⟩
  | none =>
    rw [value_ofDeclaration_of_accepted (List.findSome?_eq_none_iff.mp hfirst)] at h
    cases htoken : TokenSource.ofDeclaration d with
    | error g =>
      rw [htoken] at h
      cases h
      exact .inr rfl
    | ok token =>
      rw [htoken] at h
      exact nomatch h

/-- A bot fails with the fault of its dispatcher, or when its unit cannot be emitted. -/
theorem Generation.exists_of_ofDeclaration {d : Declaration} {w : Workspace} {f : Fault}
    (h : (ofDeclaration d w).value.1 = .error f) :
    (Dispatcher.ofDeclaration d).value = .error f ∨
      ∃ unit cause, f = .emission d.name.text unit cause := by
  rw [value_ofDeclaration] at h
  cases hu : (Dispatcher.ofDeclaration d).value with
  | error g =>
    rw [attempt_of_error w hu] at h
    exact .inl (congrArg _ (Except.error.inj h))
  | ok u =>
    right
    simp only [attempt, bind, StateT.bind, liftM, monadLift, MonadLift.monadLift, StateT.lift, pure,
      hu] at h
    generalize w.emit (CodeUnit.ofDispatcher u) (Dependencies.on u.origin) = result at h
    obtain ⟨⟨emitted, w'⟩, outputs⟩ := result
    cases emitted with
    | error cause => exact ⟨_, cause, (Except.error.inj h).symm⟩
    | ok _ => cases h

/-! ## Resolved bots -/

/-- How a resolved bot comes to a fault: no dispatcher can be generated for it, or none emitted. -/
inductive Declaration.FailsWith (d : Declaration) (f : Fault) : Prop
  | generated (h : (Dispatcher.ofDeclaration d).value = .error f)
  | processed {w : Workspace} (h : (Generation.ofDeclaration d w).value.1 = .error f)

namespace Declaration

/-- The label of a bot at each stage: its type at the synthesis of commands, its simple name after
that. -/
theorem FailsWith.names {b : ImplBlock} {d : Declaration} {f : Fault} (hd : d.IsOf b)
    (hf : d.FailsWith f) :
    f.stage = .synthesize ∧ f.declaration = d.selfType.display ∨
      (f.stage = .assemble ∨ f.stage = .emit) ∧ f.declaration = d.name.text := by
  have hgenerated : (Dispatcher.ofDeclaration d).value = .error f →
      f.stage = .synthesize ∧ f.declaration = d.selfType.display ∨
        (f.stage = .assemble ∨ f.stage = .emit) ∧ f.declaration = d.name.text := by
    intro h
    rcases Dispatcher.exists_of_ofDeclaration h with ⟨c, hc, hrejected⟩ | htoken
    · obtain ⟨hname, hstage⟩ := Handler.names_of_ofCommand hrejected
      rw [hd.owner_eq c hc] at hname
      exact .inl ⟨hstage, hname⟩
    · obtain ⟨hname, hstage⟩ := TokenSource.names_of_ofDeclaration htoken
      exact .inr ⟨.inl hstage, hname⟩
  cases hf with
  | generated h => exact hgenerated h
  | processed h =>
    rcases Generation.exists_of_ofDeclaration h with h | ⟨unit, cause, rfl⟩
    · exact hgenerated h
    · exact .inr ⟨.inr rfl, rfl⟩

/-- A fault of a resolved bot shows at one of the later stages. About a command, it names the bot by
its type as written; and it names the bot by its simple name unless it is about a command and the
type is written as more than that name. -/
theorem declaration_of_fails {b : ImplBlock} {d : Declaration} {f : Fault} (hd : d.IsOf b)
    (hf : d.FailsWith f) :
    f.stage ≠ .resolve ∧ (f.stage = .synthesize → f.declaration = d.selfType.display) ∧
      (f.declaration = d.name.text ↔
        (f.stage = .synthesize → d.selfType.trees = [.word d.name])) := by
  rcases hf.names hd with ⟨hstage, hname⟩ | ⟨hstage, hname⟩
  · refine ⟨by rw [hstage]; decide, fun _ => hname, ?_⟩
    rw [hname, WrittenType.display_eq_iff hd.nameOf_eq]
    exact ⟨fun h _ => h, fun h => h hstage⟩
  · have hlater : f.stage ≠ .resolve ∧ f.stage ≠ .synthesize := by
      rcases hstage with h | h <;> rw [h] <;> decide
    exact ⟨hlater.1, fun h => absurd h hlater.2, iff_of_true hname fun h => absurd h hlater.2⟩

/-- The block `impl bots::Greeter` with these methods, unconfigured. -/
def qualifiedBlock (members : List Member) : ImplBlock :=
  { Dispatcher.loopBlock [] members with
    selfType := ⟨[.made "bots"] ++ Template.pathMark ++ [.made "Greeter"]⟩ }

/-- What such a block declares. -/
def qualifiedBot (members : List Member) : Declaration :=
  { Dispatcher.loopBot [] members with
    name := .made "Greeter"
    selfType := (qualifiedBlock members).selfType
    commands := commandsOf (qualifiedBlock members) }

theorem isOf_qualifiedBlock (members : List Member) :
    (qualifiedBot members).IsOf (qualifiedBlock members) :=
  .block (n := "") (o := none) rfl

/-- Without commands the bot fails for want of a configuration, under its simple name; on the bot
that is written as `r#loop`, a rejected command does so too. -/
theorem declaration_of_fails_qualified :
    let unconfigured : Fault := .configurationMissing "Greeter" .generated
    let members := [Dispatcher.answering [.make commandMarker []] [.made "async"] "later"]
    let rejected : Fault := .malformed "r#loop" (.command "later" .asynchronous) .generated
    ((qualifiedBot []).IsOf (qualifiedBlock []) ∧ (qualifiedBot []).FailsWith unconfigured ∧
      unconfigured.declaration = (qualifiedBot []).name.text) ∧
    (Dispatcher.loopBot [] members).IsOf (Dispatcher.loopBlock [] members) ∧
      (Dispatcher.loopBot [] members).FailsWith rejected ∧
      rejected.declaration = (Dispatcher.loopBot [] members).name.text := by
  intro unconfigured members rejected
  have hunconfigured : (qualifiedBot []).FailsWith unconfigured := .generated rfl
  have hloop : (Dispatcher.loopBot [] members).IsOf (Dispatcher.loopBlock [] members) :=
    .block (n := "") (o := none) rfl
  have hrejected : (Dispatcher.loopBot [] members).FailsWith rejected := .generated rfl
  refine ⟨⟨isOf_qualifiedBlock [], hunconfigured, ?_⟩, hloop, hrejected, ?_⟩
  · exact (declaration_of_fails (isOf_qualifiedBlock []) hunconfigured).2.2.mpr (nomatch ·)
  · exact (declaration_of_fails hloop hrejected).2.2.mpr fun _ => rfl

/-- A rejected command of `bots::Greeter` names its bot `bots :: Greeter`. -/
theorem exists_fails_misnamed :
    ∃ (b : ImplBlock) (d : Declaration) (f : Fault), d.IsOf b ∧ d.FailsWith f ∧
      d.name.text = "Greeter" ∧ f.declaration = "bots :: Greeter" ∧
      f.message = "bot `bots :: Greeter`: synthesize failed: command `later`: " ++
        "async command handlers are not supported" :=
  ⟨_, _, .malformed "bots :: Greeter" (.command "later" .asynchronous) .generated,
    isOf_qualifiedBlock [Dispatcher.answering [.make commandMarker []] [.made "async"] "later"],
    .generated rfl, rfl, rfl, rfl⟩

end Declaration

end CommandBot
