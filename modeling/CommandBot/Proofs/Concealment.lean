import CommandBot.Bot.Running
import CommandBot.Proofs.AlikeNetworks
import CommandBot.Proofs.CommandOrder
import CommandBot.Proofs.Isolation
import CommandBot.Proofs.TokenBinding

/-
  Tokens do not leak. Two bots whose sources differ in no more than the values of their tokens are
  resolved, generated and kept in memory with the same outputs, and with the same fault or with
  results that are alike (`Concur`). When they run against a loopback gateway, no one on the network
  can tell them apart (`Agree`), but for the token that the gateway was given. `token_concealed`
  says so of all stages.
-/

namespace CommandBot

/-! ## Verdicts -/

/-- The same fault but for the place that it points at, or results that are related. -/
inductive SameVerdict {α β : Type} (R : α → β → Prop) : Except Fault α → Except Fault β → Prop
  | failed {f f' : Fault} (unplaced_eq : f'.unplaced = f.unplaced)
    (declaration_eq : f'.declaration = f.declaration) (stage_eq : f'.stage = f.stage)
    (message_eq : f'.message = f.message) : SameVerdict R (.error f) (.error f')
  | passed {a : α} {b : β} (h : R a b) : SameVerdict R (.ok a) (.ok b)

/-- Stages that put out the same and come to the same verdict. -/
structure Concur {α β : Type} (R : α → β → Prop) (m : Logged (Except Fault α))
    (m' : Logged (Except Fault β)) : Prop where
  outputs_eq : m'.outputs = m.outputs
  verdict : SameVerdict R m.value m'.value

theorem SameVerdict.of_unplaced_eq {α β : Type} {R : α → β → Prop} {f f' : Fault}
    (h : f'.unplaced = f.unplaced) : SameVerdict R (.error f) (.error f') := by
  obtain ⟨hdeclaration, hstage, hmessage⟩ := Fault.reported_eq h
  exact .failed h hdeclaration hstage hmessage

theorem SameVerdict.mono {α β : Type} {R S : α → β → Prop} (hrs : ∀ a b, R a b → S a b)
    {r : Except Fault α} {r' : Except Fault β} (h : SameVerdict R r r') : SameVerdict S r r' := by
  obtain ⟨hunplaced, hdeclaration, hstage, hmessage⟩ | h := h
  · exact .failed hunplaced hdeclaration hstage hmessage
  · exact .passed (hrs _ _ h)

/-- Stages that one stage mirrors concur. -/
theorem Mirrors.concur {α β : Type} {f : α → β} {m m' : Logged (Except Fault α)}
    {mirror : Logged (Except Fault β)} (h : Mirrors f m mirror) (h' : Mirrors f m' mirror) :
    Concur (fun a a' => f a' = f a) m m' := by
  have hvalue := h'.value_eq.symm.trans h.value_eq
  refine ⟨h'.outputs_eq.symm.trans h.outputs_eq, ?_⟩
  rcases hm : m.value with e | a
  · rcases hm' : m'.value with e' | a'
    · rw [hm, hm'] at hvalue
      exact .of_unplaced_eq (Except.error.inj hvalue)
    · rw [hm, hm'] at hvalue
      exact nomatch hvalue
  · rcases hm' : m'.value with e' | a'
    · rw [hm, hm'] at hvalue
      exact nomatch hvalue
    · rw [hm, hm'] at hvalue
      exact .passed (Except.ok.inj hvalue)

/-! ## Stages -/

/-- A workspace in memory, behind a bot that may have a unit. -/
def Workspace.keeping (files : Files) (units : List KeptUnit) (deps : Dependencies) :
    Except Fault CodeUnit → Workspace
  | .error _ => ⟨files, .memory units⟩
  | .ok c => ⟨files, .memory (units ++ [kept c deps])⟩

namespace Generation

variable {d d' : Declaration}

theorem concur_ofDeclaration (h : d'.redacted = d.redacted) :
    Concur (fun u u' => Dispatcher.redacted u' = Dispatcher.redacted u)
      (Dispatcher.ofDeclaration d) (Dispatcher.ofDeclaration d') := by
  have hd' := Dispatcher.mirrors_ofDeclaration_redacted d'
  rw [h] at hd'
  exact (Dispatcher.mirrors_ofDeclaration_redacted d).concur hd'

theorem botScope_eq (h : d'.redacted = d.redacted) : botScope d' = botScope d := by
  have hname : d'.redacted.name.text = d.redacted.name.text := by rw [h]
  exact congrArg (fun name => Log.Scope.mk "process" target [("bot", .plain name)] .info) hname

theorem generatedEvent_eq {u u' : Dispatcher} (h : u'.redacted = u.redacted) :
    generatedEvent u' = generatedEvent u := by
  have hname : u'.redacted.name = u.redacted.name := by rw [h]
  have hnamespace : u'.redacted.namespace_ = u.redacted.namespace_ := by rw [h]
  have hhandlers : u'.redacted.handlers.length = u.redacted.handlers.length := by rw [h]
  have hlength : ∀ v : Dispatcher, v.redacted.handlers.length = v.handlers.length := fun v =>
    List.length_map _
  rw [hlength, hlength] at hhandlers
  unfold generatedEvent
  rw [show u'.name = u.name from hname, show u'.namespace_ = u.namespace_ from hnamespace,
    hhandlers]

/-- What is found at two sources is generated into memory with the same outputs, and with the same
verdict. -/
theorem concur_ofFound {r r' : Except Fault Declaration}
    (h : SameVerdict (fun d d' => Declaration.redacted d' = Declaration.redacted d) r r')
    (files : Files) (units : List KeptUnit) :
    let w : Workspace := ⟨files, .memory units⟩
    (ofFound r' w).outputs = (ofFound r w).outputs ∧
      ∃ deps c c', (ofFound r w).value = (c, .keeping files units deps c) ∧
        (ofFound r' w).value = (c', .keeping files units deps c') ∧
        SameVerdict CodeUnit.AgreeButToken c c' := by
  intro w
  obtain @⟨f, f', hunplaced, hdeclaration, hstage, hmessage⟩ | @⟨d, d', h⟩ := h
  · have hevent : unresolvedEvent f' = unresolvedEvent f := by
      unfold unresolvedEvent
      rw [hdeclaration, hstage, hmessage]
    refine ⟨congrArg (fun e => [Output.event e]) hevent, {}, .error f, .error f', rfl, rfl, ?_⟩
    exact .failed hunplaced hdeclaration hstage hmessage
  obtain ⟨houtputs, hverdict⟩ := concur_ofDeclaration h
  generalize hu : (Dispatcher.ofDeclaration d).value = r at hverdict
  generalize hu' : (Dispatcher.ofDeclaration d').value = r' at hverdict
  obtain @⟨f, f', hunplaced, hdeclaration, hstage, hmessage⟩ | @⟨u, u', hredacted⟩ := hverdict
  · have hevent : failedEvent f' = failedEvent f := by
      unfold failedEvent
      rw [hstage, hmessage]
    rw [ofFound_of_error w hu, ofFound_of_error w hu', botScope_eq h, houtputs, hevent]
    exact ⟨rfl, {}, .error f, .error f', rfl, rfl, .failed hunplaced hdeclaration hstage hmessage⟩
  · have horigin : u'.redacted.origin = u.redacted.origin := by rw [hredacted]
    rw [ofFound_of_ok files units hu, ofFound_of_ok files units hu', botScope_eq h, houtputs,
      generatedEvent_eq hredacted, show u'.origin = u.origin from horigin]
    exact ⟨rfl, Dependencies.on u.origin, .ok _, .ok _, rfl, rfl,
      .passed (CodeUnit.agreeButToken_ofDispatcher hredacted)⟩

end Generation

namespace BotSource

/-- The bot's unit, generated and emitted. -/
def process (s : BotSource) : Work (Except Fault CodeUnit) := do
  Generation.ofFound (← (s.resolve : Logged _))

theorem value_process (s : BotSource) (w : Workspace) :
    (s.process w).value = (Generation.ofFound s.resolve.value w).value := rfl

theorem outputs_process (s : BotSource) (w : Workspace) :
    (s.process w).outputs =
      s.resolve.outputs ++ (Generation.ofFound s.resolve.value w).outputs :=
  congrArg (· ++ _) (List.append_nil s.resolve.outputs)

variable {s s' : BotSource}

theorem concur_resolve (h : s'.redacted = s.redacted) :
    Concur (fun d d' => Declaration.redacted d' = Declaration.redacted d) s.resolve s'.resolve := by
  have hs' := s'.mirrors_resolve
  rw [h] at hs'
  exact s.mirrors_resolve.concur hs'

theorem concur_generate (h : s'.redacted = s.redacted) :
    Concur (fun u u' => Dispatcher.redacted u' = Dispatcher.redacted u) s.generate s'.generate := by
  have hs' := s'.mirrors_generate
  rw [h] at hs'
  exact s.mirrors_generate.concur hs'

end BotSource

/-! ## Runs -/

theorem DispatchTable.position?_unplaced (t : DispatchTable) (content : String) :
    t.unplaced.position? content = t.position? content := by
  unfold position? unplaced
  rw [List.findIdx?_map]
  rfl

namespace Dispatcher

variable {ι σ : Type} {u u' : Dispatcher}

/-- A run of a dispatcher: it logs in through a builder, and then some acts happen on the
network. -/
def live (u : Dispatcher) (place : String) (env : Environment) (l : ι) (c : ClientBuilder ι)
    (b : Behavior ι σ) (acts : List (NetworkAct ι)) :
    Exchange ι σ (Except ClientFault SessionId × List (Option ClientFault)) := do
  let login ← u.runWith place env l c
  let faults ← NetworkAct.performAll b acts
  return (login, faults)

/-- The text of the builder that a dispatcher logs in with. -/
def builderText (u : Dispatcher) (env : Environment) (l : ι) (c : ClientBuilder ι)
    (w : Network ι σ) : Except ClientFault String :=
  (u.token.resolve env).map fun token => ((c.setToken token).listen l).description w

theorem onMessage_of_redacted_eq (h : u'.redacted = u.redacted) (place : String)
    (meaning : CommandMeaning σ) (m : Message) (memory : σ) :
    (u'.onMessage place meaning m memory : Reaction ι σ) = u.onMessage place meaning m memory := by
  have htable : u'.redacted.table = u.redacted.table := by rw [h]
  have hposition : u'.table.position? m.content = u.table.position? m.content := by
    rw [← u'.table.position?_unplaced, ← u.table.position?_unplaced]
    exact congrArg (fun t => DispatchTable.position? t m.content) htable
  unfold onMessage
  rw [hposition]

/-- Where the tokens come from, each of two bots has one, or neither has. -/
theorem resolve_cases (h : u'.redacted = u.redacted) (env : Environment) :
    (∃ t t', u.token.resolve env = .ok t ∧ u'.token.resolve env = .ok t') ∨
      ∃ f, u.token.resolve env = .error f ∧ u'.token.resolve env = .error f := by
  rcases TokenSource.cases_of_redacted_eq (congrArg Dispatcher.token h) with
    ⟨token, token', ht, ht'⟩ | ⟨name, ht, ht'⟩
  · rw [ht, ht']
    exact .inl ⟨token, token', rfl, rfl⟩
  · rw [ht, ht']
    rcases TokenSource.resolve env (.env name) with f | token
    · exact .inr ⟨f, rfl, rfl⟩
    · exact .inl ⟨token, token, rfl, rfl⟩

variable {w w' : Network ι σ}

theorem builderText_of_redacted_eq (h : u'.redacted = u.redacted) (hw : w.Alike id w')
    (env : Environment) (l : ι) (c : ClientBuilder ι) :
    u'.builderText env l c w' = u.builderText env l c w := by
  have hname : (fun g => Text.quote (w'.nameOf g)) = fun g => Text.quote (w.nameOf g) :=
    funext fun g => congrArg Text.quote (hw.nameOf_eq g)
  unfold builderText
  rcases resolve_cases h env with ⟨t, t', ht, ht'⟩ | ⟨f, hf, hf'⟩
  · rw [ht, ht']
    simp only [Except.map, ClientBuilder.description, ClientBuilder.setToken, ClientBuilder.listen,
      Option.map_some, hname]
  · rw [hf, hf', Except.map, Except.map]

/-- A loopback gateway lets two bots in alike whose tokens differ. -/
theorem agree_runWith (h : u'.redacted = u.redacted) (hw : w.Alike id w') (place : String)
    (env : Environment) (l : ι) {c : ClientBuilder ι}
    (hc : ∀ g gw, c.gateway = some g → w.gateways[g]? = some gw → gw.manner = .loopback) :
    Agree id (u.runWith place env l c w) (u'.runWith place env l c w') := by
  have hname : u'.redacted.name = u.redacted.name := by rw [h]
  have hevent : u'.runningEvent place = u.runningEvent place := by
    unfold runningEvent
    rw [show u'.name = u.name from hname]
  rcases resolve_cases h env with ⟨t, t', ht, ht'⟩ | ⟨f, hf, hf'⟩
  · have hlogin : Agree id (((c.setToken t).listen l).login w)
        (((c.setToken t').listen l).login w') := by
      refine hw.agree_login rfl rfl rfl rfl fun g gw reason hg hgw hmanner => ?_
      rw [hc g gw hg hgw] at hmanner
      exact nomatch hmanner
    unfold runWith
    rw [ht, ht', hevent]
    exact ⟨hlogin.answer_eq, congrArg (fun o => [Output.event _] ++ o) hlogin.outputs_eq,
      hlogin.alike⟩
  · unfold runWith
    rw [hf, hf', hevent]
    exact ⟨rfl, rfl, hw⟩

/-- Runs against a loopback gateway are alike if the dispatchers are, but for their tokens. -/
theorem agree_live (h : u'.redacted = u.redacted) (hw : w.Alike id w') (place : String)
    (env : Environment) (l : ι) {c : ClientBuilder ι}
    (hc : ∀ g gw, c.gateway = some g → w.gateways[g]? = some gw → gw.manner = .loopback)
    (b : Behavior ι σ) (acts : List (NetworkAct ι)) :
    Agree id (u.live place env l c b acts w) (u'.live place env l c b acts w') := by
  have hb : b.Follows id b := fun _ _ _ => rfl
  unfold live
  refine (agree_runWith h hw place env l hc).bind fun _ _ _ hv => ?_
  exact (hv.agree_performAll hb acts).bind fun _ _ _ hend => .pure hend _

end Dispatcher

/-! ## All stages -/

/-- Bots whose sources differ in no more than the values of their tokens: all stages put out the same
and come to the same verdict, the units differ at most in the literal that `run_with` binds, and a
run against a loopback gateway differs in no more than the tokens that gateways hold. -/
theorem BotSource.token_concealed (s s' : BotSource) (h : s'.redacted = s.redacted) :
    Concur (fun d d' => Declaration.redacted d' = Declaration.redacted d) s.resolve s'.resolve ∧
    Concur (fun u u' => (CodeUnit.ofDispatcher u).AgreeButToken (CodeUnit.ofDispatcher u'))
      s.generate s'.generate ∧
    (∀ files units,
      let w : Workspace := ⟨files, .memory units⟩
      (s'.process w).outputs = (s.process w).outputs ∧
        ∃ deps c c', (s.process w).value = (c, .keeping files units deps c) ∧
          (s'.process w).value = (c', .keeping files units deps c') ∧
          SameVerdict CodeUnit.AgreeButToken c c') ∧
    ∀ u u', s.generate.value = .ok u → s'.generate.value = .ok u' →
      ∀ {ι σ : Type} (place : String) (env : Environment) (meaning : CommandMeaning σ) (l : ι)
        (b : Behavior ι σ) (c : ClientBuilder ι) (acts : List (NetworkAct ι)) (w w' : Network ι σ),
        (∀ m memory, b l m memory = u.onMessage place meaning m memory) → w.Alike id w' →
        (∀ g gw, c.gateway = some g → w.gateways[g]? = some gw → gw.manner = .loopback) →
        (∀ m memory, b l m memory = u'.onMessage place meaning m memory) ∧
          Agree id (u.live place env l c b acts w) (u'.live place env l c b acts w') ∧
          u'.builderText env l c w' = u.builderText env l c w := by
  have hresolve := concur_resolve h
  have hgenerate := concur_generate h
  refine ⟨hresolve, ⟨hgenerate.outputs_eq, ?_⟩, fun files units => ?_, ?_⟩
  · exact hgenerate.verdict.mono fun _ _ => CodeUnit.agreeButToken_ofDispatcher
  · obtain ⟨houtputs, hkept⟩ := Generation.concur_ofFound hresolve.verdict files units
    dsimp only
    rw [outputs_process, outputs_process, hresolve.outputs_eq, houtputs, value_process,
      value_process]
    exact ⟨rfl, hkept⟩
  · intro u u' hu hu' ι σ place env meaning l b c acts w w' hb hw hc
    have hverdict := hgenerate.verdict
    rw [hu, hu'] at hverdict
    obtain _ | hredacted := hverdict
    refine ⟨fun m memory => ?_, ?_, ?_⟩
    · rw [hb, Dispatcher.onMessage_of_redacted_eq hredacted]
    · exact Dispatcher.agree_live hredacted hw place env l hc b acts
    · exact Dispatcher.builderText_of_redacted_eq hredacted hw env l c

namespace Dispatcher

/-- The attribute of a bot whose token is this literal, which ends in this column. -/
def tokenAttribute (literal : String) (column : Nat) : Attribute :=
  .make botMarker
    [.made "token", .mark '=' .alone .generated,
      .literal literal (.written ⟨1, 14⟩ ⟨1, column⟩)]

def helloMembers : List Member := [answering [.make commandMarker []] [] "hello"]

/-- The dispatcher of a bot that says hello, with this token. -/
def helloDispatcher (literal : String) (column : Nat) (token : String) : Dispatcher :=
  ofSound (loopBot [tokenAttribute literal column] helloMembers) (.literal token)

/-- A loopback gateway. -/
def loopbackNetwork : Network Unit Nat :=
  { gateways := [⟨"loopback", .loopback, none, none, []⟩], memory := 0 }

end Dispatcher

namespace BotSource

open Dispatcher

theorem token_concealed_sesame :
    let s := block (loopBlock [tokenAttribute "\"sesame\"" 22] helloMembers) "" none
    let s' := block (loopBlock [tokenAttribute "\"abc\"" 19] helloMembers) "" none
    let u := helloDispatcher "\"sesame\"" 22 "sesame"
    let u' := helloDispatcher "\"abc\"" 19 "abc"
    let meaning : CommandMeaning Nat := fun _ _ n => ⟨n + 1, some "hi"⟩
    let b : Behavior Unit Nat := fun _ => u.onMessage "bots" meaning
    let c : ClientBuilder Unit := { gateway := some 0 }
    let acts : List (NetworkAct Unit) :=
      [.deed (.inject 0 ⟨"!hello", none, ⟨"lobby", some 0⟩⟩), .pump .stream 0, .pump .stream 0]
    let w := (u.live "bots" [] () c b acts loopbackNetwork).value.2
    let w' := (u'.live "bots" [] () c b acts loopbackNetwork).value.2
    s'.redacted = s.redacted ∧ s.generate.value = .ok u ∧ s'.generate.value = .ok u' ∧
      (∀ m n, b () m n = u.onMessage "bots" meaning m n) ∧
      loopbackNetwork.Alike id loopbackNetwork ∧
      (∀ g gw, c.gateway = some g → loopbackNetwork.gateways[g]? = some gw →
        gw.manner = .loopback) ∧
      w.Alike id w' ∧ w.gateways.map Gateway.replies = [[⟨"lobby", "hi"⟩]] ∧
      w.gateways.map Gateway.token = [some "sesame"] ∧
      w'.gateways.map Gateway.token = [some "abc"] := by
  intro s s' u u' meaning b c acts w w'
  have hredacted : s'.redacted = s.redacted := rfl
  have hu : s.generate.value = .ok u := rfl
  have hu' : s'.generate.value = .ok u' := rfl
  have hb : ∀ m n, b () m n = u.onMessage "bots" meaning m n := fun _ _ => rfl
  have hw : loopbackNetwork.Alike id loopbackNetwork := ⟨rfl, rfl, rfl, rfl⟩
  have hloopback : ∀ g gw, c.gateway = some g → loopbackNetwork.gateways[g]? = some gw →
      gw.manner = .loopback := by
    intro g gw hg hgw
    obtain rfl : 0 = g := Option.some.inj hg
    obtain rfl : _ = gw := Option.some.inj hgw
    rfl
  obtain ⟨-, -, -, hruns⟩ := token_concealed s s' hredacted
  obtain ⟨-, hagree, -⟩ := hruns u u' hu hu' "bots" [] meaning () b c acts _ _ hb hw hloopback
  exact ⟨hredacted, hu, hu', hb, hw, hloopback, hagree.alike, rfl, rfl, rfl⟩

end BotSource

end CommandBot
