import CommandBot.Bot.Running
import CommandBot.Proofs.Accepted
import CommandBot.Proofs.SessionSteps

/-
  Conversations with a dispatcher. `Declaration.transcript` says what a bot is to make of a list of
  messages: which commands run, on which memory, and which replies go out. A `DispatcherRun` is a
  dispatcher that logged in through a loopback gateway, and a schedule of acts behind the login:
  messages come in, the session's task takes a step, the gateway disconnects. `Follows` is the
  invariant of such a run; `replies_eq_transcript` says that the replies of a session at rest are those of the
  transcript of all accepted messages, and that each run of a method is one of the transcript's.
-/

namespace CommandBot

/-! ## What a bot is to answer -/

/-- One run of a command: its place in the declaration, the message, and the memory before it. -/
structure CommandRun (σ : Type) where
  command : Nat
  message : Message
  before : σ

/-- What some messages lead to. -/
structure Transcript (σ : Type) where
  memory : σ
  runs : List (CommandRun σ)
  replies : List Reply

variable {ι σ : Type}

/-- The commands, each of which also notes that it ran. -/
def CommandMeaning.noted (meaning : CommandMeaning σ) :
    CommandMeaning (σ × List (CommandRun σ)) := fun k m s =>
  let outcome := meaning k m s.1
  ⟨(outcome.memory, s.2 ++ [⟨k, m, s.1⟩]), outcome.answer⟩

namespace Declaration

/-- The place of the first command that a message's content calls. -/
def called? (d : Declaration) (content : String) : Option Nat :=
  d.commands.findIdx? fun c => Handler.keyMark ++ c.name.text == content

/-- What the commands of a bot make of some messages, one after the other. -/
def transcript (d : Declaration) (meaning : CommandMeaning σ) : σ → List Message → Transcript σ
  | s, [] => ⟨s, [], []⟩
  | s, m :: rest =>
    match d.called? m.content with
    | none => transcript d meaning s rest
    | some k =>
      let outcome := meaning k m s
      let later := transcript d meaning outcome.memory rest
      { memory := later.memory
        runs := ⟨k, m, s⟩ :: later.runs
        replies := (outcome.answer.map fun a => ⟨m.channel.name, a⟩).toList ++ later.replies }

end Declaration

namespace Declaration

theorem transcript_append (d : Declaration) (meaning : CommandMeaning σ) (s : σ)
    (ms ns : List Message) :
    d.transcript meaning s (ms ++ ns) =
      let before := d.transcript meaning s ms
      let behind := d.transcript meaning before.memory ns
      { memory := behind.memory, runs := before.runs ++ behind.runs,
        replies := before.replies ++ behind.replies } := by
  induction ms generalizing s with
  | nil => simp [transcript]
  | cons m ms ih =>
    simp only [List.cons_append, transcript]
    cases d.called? m.content with
    | none => simp [ih]
    | some k => simp [ih]

/-- The commands that note their runs note those of the transcript. -/
theorem memory_transcript_noted (d : Declaration) (meaning : CommandMeaning σ) (s : σ)
    (noted : List (CommandRun σ)) (ms : List Message) :
    (d.transcript meaning.noted (s, noted) ms).memory =
      ((d.transcript meaning s ms).memory, noted ++ (d.transcript meaning s ms).runs) := by
  induction ms generalizing s noted with
  | nil => simp [transcript]
  | cons m ms ih =>
    simp only [transcript]
    cases d.called? m.content with
    | none => simp [ih]
    | some k => simp [ih, CommandMeaning.noted]

end Declaration

/-- The arm that a message takes stands where the first command with its key does. -/
theorem Dispatcher.position?_eq_called? {d : Declaration} {u : Dispatcher}
    (hu : (Dispatcher.ofDeclaration d).value = .ok u) (content : String) :
    u.table.position? content = d.called? content := by
  obtain ⟨-, token, -, rfl⟩ := (Dispatcher.ofDeclaration_eq_ok_iff d u).1 hu
  simp only [Dispatcher.ofSound, DispatchTable.position?, DispatchTable.ofHandlers,
    Declaration.called?, List.map_map, List.findIdx?_map]
  rfl

/-! ## Runs behind a login -/

/-- What happens to a loopback gateway and to the task of the session that it feeds. -/
inductive ChatAct where
  | inject (channel content : String) (author : Option String)
  | pump (p : Preference)
  | disconnect

/-- A message on a channel of a gateway. -/
def Message.on (g : GatewayId) (channel content : String) (author : Option String) : Message :=
  { content, author, channel := ⟨channel, some g⟩ }

namespace ChatAct

/-- Performs an act; the answer is the message that was accepted, if one was. -/
def perform (b : Behavior ι σ) (g : GatewayId) (i : SessionId) :
    ChatAct → Network ι σ → List Message × Network ι σ
  | .inject channel content author, w =>
    let m := Message.on g channel content author
    match w.inject g m with
    | (.ok _, w') => ([m], w')
    | (.error _, w') => ([], w')
  | .pump p, w => ([], w.stepped b p i)
  | .disconnect, w => ([], (w.disconnect g).value)

/-- Performs some acts; the answer is the messages that were accepted, in order. -/
def performAll (b : Behavior ι σ) (g : GatewayId) (i : SessionId) :
    List ChatAct → Network ι σ → List Message × Network ι σ
  | [], w => ([], w)
  | a :: rest, w =>
    let now := a.perform b g i w
    let later := performAll b g i rest now.2
    (now.1 ++ later.1, later.2)

end ChatAct

/-- A dispatcher that logged in with a fresh builder through a loopback gateway, and what happened
then. -/
structure DispatcherRun (ι σ : Type) (u : Dispatcher) (meaning : CommandMeaning σ) where
  /-- the module that the dispatcher's code stands in -/
  place : String
  env : Environment
  listener : ι
  behavior : Behavior ι σ
  behavior_listener : ∀ m s, behavior listener m s = u.onMessage place meaning m s
  start : Network ι σ
  gatewayId : GatewayId
  gateway : Gateway
  gateway_eq : start.gateways[gatewayId]? = some gateway
  manner_eq : gateway.manner = .loopback
  session : SessionId
  loggedIn : Network ι σ
  login_eq :
    (u.runWith place env listener ((ClientBuilder.new start).withGateway gatewayId) start).value =
      (.ok session, loggedIn)
  acts : List ChatAct

namespace DispatcherRun

variable {u : Dispatcher} {meaning : CommandMeaning σ}

def outcome (r : DispatcherRun ι σ u meaning) : List Message × Network ι σ :=
  ChatAct.performAll r.behavior r.gatewayId r.session r.acts r.loggedIn

/-- The messages that the gateway accepted, in the order of their injection. -/
def accepted (r : DispatcherRun ι σ u meaning) : List Message := r.outcome.1

def final (r : DispatcherRun ι σ u meaning) : Network ι σ := r.outcome.2

/-- The replies that wait in the gateway's outbound queue. -/
def outbound (r : DispatcherRun ι σ u meaning) : Option (List Reply) :=
  (r.final.gateways[r.gatewayId]?).map Gateway.replies

/-- The run with some more steps of the session's task. -/
def pumped (r : DispatcherRun ι σ u meaning) (p : Preference) (n : Nat) :
    DispatcherRun ι σ u meaning :=
  { r with acts := r.acts ++ List.replicate n (.pump p) }

end DispatcherRun

/-! ## One message -/

/-- What a reaction that sends at most one text on a channel does to a network. -/
theorem Reaction.happen_send {c : Channel} {g : GatewayId} (hc : c.gateway = some g) (s : σ)
    (answer : Option String) (panics : Bool) (w : Network ι σ) :
    let reaction : Reaction ι σ :=
      { memory := s, deeds := (answer.map fun a => Deed.send c a).toList, panics }
    let w' := (reaction.happen w).value.2
    w'.sessions = w.sessions ∧ w'.memory = s ∧
      w'.gateways[g]? = (w.gateways[g]?).map fun gw =>
        { gw with replies := gw.replies ++ (answer.map fun a => ⟨c.name, a⟩).toList } := by
  cases answer with
  | none =>
    refine ⟨rfl, rfl, ?_⟩
    have hid : (fun gw : Gateway => { gw with replies := gw.replies ++ [] }) = id := by
      funext gw
      rw [List.append_nil]
      rfl
    simp only [Option.map_none, Option.toList_none, hid, Option.map_id_fun, id]
    rfl
  | some a =>
    have hsend : ∀ v : Network ι σ, (v.send c a).2 =
        v.onGateway g fun gw => { gw with replies := gw.replies ++ [⟨c.name, a⟩] } := by
      intro v
      simp [Network.send, Channel.check, hc]
    have hw : (({ memory := s, deeds := [Deed.send c a], panics } : Reaction ι σ).happen w).value.2 =
        ({ w with memory := s }.send c a).2 := rfl
    simp only [Option.map_some, Option.toList_some, hw, hsend]
    exact ⟨rfl, rfl, Network.gateway_onGateway _ g _⟩

namespace Dispatcher

/-- The reaction of a dispatcher, told from its declaration. -/
theorem onMessage_eq {d : Declaration} {u : Dispatcher}
    (hu : (Dispatcher.ofDeclaration d).value = .ok u) (place : String) (meaning : CommandMeaning σ)
    {m : Message} {g : GatewayId} (hm : m.channel.gateway = some g) (s : σ) :
    (u.onMessage place meaning m s : Reaction ι σ) =
      match d.called? m.content with
      | none => { memory := s }
      | some k =>
        { memory := (meaning k m s).memory
          deeds := ((meaning k m s).answer.map fun a => Deed.send m.channel a).toList
          panics := (meaning k m s).answer.isNone } := by
  rw [onMessage, position?_eq_called? hu]
  cases d.called? m.content with
  | none => rfl
  | some k =>
    have hcheck : m.channel.check = .ok g := by simp [Channel.check, hm]
    simp only
    obtain ⟨s', answer⟩ := meaning k m s
    cases answer with
    | none => rfl
    | some a => simp [respond, hcheck]

/-- A message on a channel of a gateway leads to what the transcript of that message says. -/
theorem call_onMessage {d : Declaration} {u : Dispatcher}
    (hu : (Dispatcher.ofDeclaration d).value = .ok u) {b : Behavior ι σ} {l : ι} {place : String}
    {meaning : CommandMeaning σ} (hb : ∀ m s, b l m s = u.onMessage place meaning m s)
    {m : Message} {g : GatewayId} (hm : m.channel.gateway = some g) (w : Network ι σ) :
    let t := d.transcript meaning w.memory [m]
    let w' := (b.call l m w).value.2
    w'.sessions = w.sessions ∧ w'.memory = t.memory ∧
      w'.gateways[g]? = (w.gateways[g]?).map fun gw =>
        { gw with replies := gw.replies ++ t.replies } := by
  have hcall : (b.call l m w).value.2 =
      ((u.onMessage place meaning m w.memory : Reaction ι σ).happen w).value.2 := by
    rw [← hb]
    rfl
  simp only [hcall, onMessage_eq hu place meaning hm, Declaration.transcript]
  cases d.called? m.content with
  | none => exact Reaction.happen_send hm w.memory none false w
  | some k =>
    simp only [List.append_nil]
    exact Reaction.happen_send hm _ _ _ w

end Dispatcher

/-! ## The invariant -/

namespace Session

/-- The messages that a session accepted and did not answer yet. -/
def pending (s : Session ι) : List Message :=
  match s.phase with
  | .waiting => s.queue
  | .handling m (_ :: _) => m :: s.queue
  | .handling _ [] => s.queue
  | .ended => []

/-- A session that one listener serves, and that was not shut down. -/
structure Serves (l : ι) (s : Session ι) : Prop where
  listeners_eq : s.listeners = [l]
  left_eq : ∀ m left, s.phase = .handling m left → left = [l] ∨ left = []
  isClosed_eq : s.phase ≠ .ended → s.isClosed = false

end Session

/-- The accepted messages are those handled so far and those pending, in this order, and memory and
replies are what the transcript of the handled ones says. -/
def Follows (d : Declaration) (meaning : CommandMeaning σ) (l : ι) (g : GatewayId) (i : SessionId)
    (replies : List Reply) (memory : σ) (accepted : List Message) (w : Network ι σ) : Prop :=
  ∃ s handled,
    w.sessions[i]? = some s ∧ s.Serves l ∧ (w.inboundOf g = none ∨ w.inboundOf g = some i) ∧
      (∀ m ∈ s.pending, m.channel.gateway = some g) ∧ accepted = handled ++ s.pending ∧
      w.memory = (d.transcript meaning memory handled).memory ∧
      (w.gateways[g]?).map Gateway.replies =
        some (replies ++ (d.transcript meaning memory handled).replies)

namespace Follows

variable {d : Declaration} {meaning : CommandMeaning σ} {l : ι} {g : GatewayId} {i : SessionId}
  {replies : List Reply} {memory : σ} {accepted : List Message} {w : Network ι σ}

theorem inject (h : Follows d meaning l g i replies memory accepted w) (b : Behavior ι σ)
    (channel content : String) (author : Option String) :
    let r := (ChatAct.inject channel content author).perform b g i w
    Follows d meaning l g i replies memory (accepted ++ r.1) r.2 := by
  obtain ⟨s, handled, hs, hserves, hin, hchan, hacc, hmem, hrep⟩ := h
  have same : Follows d meaning l g i replies memory (accepted ++ []) w := by
    rw [List.append_nil]
    exact ⟨s, handled, hs, hserves, hin, hchan, hacc, hmem, hrep⟩
  simp only [ChatAct.perform]
  generalize hm : Message.on g channel content author = m
  have hchannel : m.channel.gateway = some g := by
    rw [← hm]
    rfl
  rcases hin with hin | hin
  · simpa only [Network.inject, hin] using same
  · by_cases hended : s.phase = .ended
    · have htakes : w.takesMessages i = false := by
        simp [Network.takesMessages, hs, Session.hasEnded, hended]
      simpa only [Network.inject, hin, htakes, Bool.false_eq_true, if_false] using same
    · have htakes : w.takesMessages i = true := by
        simp only [Network.takesMessages, hs, Option.any_some, Session.hasEnded]
        cases hp : s.phase <;> simp_all
      simp only [Network.inject, hin, htakes, if_true]
      -- the new message is the last of the pending ones, whatever the task is doing
      have hpending : ({ s with queue := s.queue ++ [m] } : Session ι).pending =
          s.pending ++ [m] := by
        simp only [Session.pending]
        cases hp : s.phase with
        | waiting => rfl
        | ended => exact absurd hp hended
        | handling m' left => cases left <;> rfl
      refine ⟨{ s with queue := s.queue ++ [m] }, handled, ?_, ?_, .inr hin, ?_, ?_, hmem, hrep⟩
      · rw [Network.session_onSession, hs]
        rfl
      · exact ⟨hserves.listeners_eq, hserves.left_eq, hserves.isClosed_eq⟩
      · intro m' hm'
        rw [hpending, List.mem_append, List.mem_singleton] at hm'
        rcases hm' with hm' | rfl
        · exact hchan m' hm'
        · exact hchannel
      · rw [hpending, hacc, List.append_assoc]

theorem disconnect (h : Follows d meaning l g i replies memory accepted w) :
    Follows d meaning l g i replies memory accepted (w.disconnect g).value := by
  obtain ⟨s, handled, hs, hserves, hin, hchan, hacc, hmem, hrep⟩ := h
  rcases hin with hin | hin
  · have hw : (w.disconnect g).value = w := by simp [Network.disconnect, hin]
    rw [hw]
    exact ⟨s, handled, hs, hserves, .inl hin, hchan, hacc, hmem, hrep⟩
  · have hw : (w.disconnect g).value = w.onGateway g fun gw => { gw with inbound := none } := by
      simp [Network.disconnect, hin]
    rw [hw]
    refine ⟨s, handled, hs, hserves, .inl ?_, hchan, hacc, hmem, ?_⟩
    · rw [Network.inboundOf, Network.gateway_onGateway]
      cases w.gateways[g]? <;> rfl
    · rw [Network.gateway_onGateway, Option.map_map]
      exact hrep

/-- A session at rest has answered all messages that it accepted. -/
theorem handled_of_isAtRest (h : Follows d meaning l g i replies memory accepted w)
    (hrest : w.isAtRest i = true) :
    w.memory = (d.transcript meaning memory accepted).memory ∧
      (w.gateways[g]?).map Gateway.replies =
        some (replies ++ (d.transcript meaning memory accepted).replies) := by
  obtain ⟨s, handled, hs, hserves, -, -, hacc, hmem, hrep⟩ := h
  have hnone : s.pending = [] := by
    simp only [Network.isAtRest, hs] at hrest
    simp only [Session.pending]
    cases hp : s.phase with
    | ended => rfl
    | handling m left => simp [hp] at hrest
    | waiting =>
      simp only [hp, Network.isStreamReady, Bool.and_eq_true, Bool.not_eq_true', Bool.or_eq_false_iff,
        Bool.not_eq_false'] at hrest
      exact List.isEmpty_iff.1 hrest.2.1
  rw [hacc, hnone, List.append_nil]
  exact ⟨hmem, hrep⟩

section

variable {u : Dispatcher} {place : String} {b : Behavior ι σ}

/-- One step of the task: it takes a message, calls the listener, or goes on to the next message. -/
theorem pump (h : Follows d meaning l g i replies memory accepted w)
    (hu : (Dispatcher.ofDeclaration d).value = .ok u)
    (hb : ∀ m s, b l m s = u.onMessage place meaning m s) (p : Preference) :
    Follows d meaning l g i replies memory accepted (w.stepped b p i) := by
  obtain ⟨s, handled, hs, hserves, hin, hchan, hacc, hmem, hrep⟩ := h
  have hopen := hserves.isClosed_eq
  cases hp : s.phase with
  | ended =>
    rw [Network.stepped_ended b p hs hp]
    exact ⟨s, handled, hs, hserves, hin, hchan, hacc, hmem, hrep⟩
  | waiting =>
    have hpending : s.pending = s.queue := by rw [Session.pending, hp]
    have hc : s.isClosed = false := hopen (by rw [hp]; nofun)
    cases hq : s.queue with
    | nil =>
      cases hf : w.isFed i with
      | true =>
        rw [Network.stepped_waiting_fed b p hs hp hc hq hf]
        exact ⟨s, handled, hs, hserves, hin, hchan, hacc, hmem, hrep⟩
      | false =>
        rw [Network.stepped_waiting_unfed b p hs hp hc hq hf]
        refine ⟨s.ended, handled, ?_, ⟨hserves.listeners_eq, ?_, ?_⟩, hin, ?_, ?_, hmem, hrep⟩
        · rw [Network.session_onSession, hs]
          rfl
        · intro m left hphase
          cases hphase
        · intro hphase
          exact absurd rfl hphase
        · intro m hmem
          exact absurd hmem List.not_mem_nil
        · rw [hacc, hpending, hq]
          rfl
    | cons m rest =>
      rw [Network.stepped_waiting_cons b p hs hp hc hq]
      have htaking : (s.taking m rest).pending = s.pending := by
        rw [hpending, hq, Session.pending, Session.taking, hserves.listeners_eq]
      refine ⟨s.taking m rest, handled, ?_, ⟨hserves.listeners_eq, ?_, fun _ => hc⟩, hin, ?_, ?_,
        hmem, hrep⟩
      · rw [Network.session_onSession, hs]
        rfl
      · intro m' left hphase
        rw [Session.taking, hserves.listeners_eq] at hphase
        cases hphase
        exact .inl rfl
      · rw [htaking]
        exact hchan
      · rw [htaking]
        exact hacc
  | handling m left =>
    have hc : s.isClosed = false := hopen (by rw [hp]; nofun)
    rcases hserves.left_eq m left hp with rfl | rfl
    · have hpending : s.pending = m :: s.queue := by rw [Session.pending, hp]
      have hm : m.channel.gateway = some g := hchan m (by rw [hpending]; exact List.mem_cons_self ..)
      rw [Network.stepped_handling_cons b p hs hp]
      obtain ⟨hsess, hmem', hgate⟩ := Dispatcher.call_onMessage hu hb hm
        (w.onSession i fun s => { s with phase := .handling m [] })
      rw [Network.memory_onSession, Network.gateways_onSession, hmem] at *
      -- the message moves from the pending ones to the handled ones
      refine ⟨{ s with phase := .handling m [] }, handled ++ [m], ?_, ⟨hserves.listeners_eq, ?_, ?_⟩,
        ?_, ?_, ?_, ?_, ?_⟩
      · rw [hsess, Network.session_onSession, hs]
        rfl
      · intro m' left hphase
        cases hphase
        exact .inr rfl
      · exact fun _ => hc
      · have hinbound : ∀ gw : Option Gateway, (gw.map fun gw' => { gw' with replies := gw'.replies ++
            (d.transcript meaning (d.transcript meaning memory handled).memory [m]).replies }).bind
              Gateway.inbound = gw.bind Gateway.inbound := by
          intro gw
          cases gw <;> rfl
        rw [Network.inboundOf, hgate, hinbound]
        exact hin
      · intro m' hm'
        exact hchan m' (by rw [hpending]; exact List.mem_cons_of_mem _ hm')
      · rw [hacc, hpending, List.append_assoc]
        rfl
      · rw [hmem', Declaration.transcript_append]
      · rw [hgate, Option.map_map, Declaration.transcript_append, ← List.append_assoc]
        cases hg : w.gateways[g]? with
        | none => rw [hg] at hrep; cases hrep
        | some gw =>
          rw [hg] at hrep
          simp only [Option.map_some, Option.some.injEq] at hrep ⊢
          simp [hrep]
    · have hpending : s.pending = s.queue := by rw [Session.pending, hp]
      rw [Network.stepped_handling_nil b p hs hp]
      refine ⟨{ s with phase := .waiting }, handled, ?_, ⟨hserves.listeners_eq, ?_, fun _ => hc⟩, hin,
        ?_, ?_, hmem, hrep⟩
      · rw [Network.session_onSession, hs]
        rfl
      · intro m' left hphase
        cases hphase
      · rw [hpending] at hchan
        exact hchan
      · rw [hacc, hpending]
        rfl

theorem perform (h : Follows d meaning l g i replies memory accepted w)
    (hu : (Dispatcher.ofDeclaration d).value = .ok u)
    (hb : ∀ m s, b l m s = u.onMessage place meaning m s) (a : ChatAct) :
    Follows d meaning l g i replies memory (accepted ++ (a.perform b g i w).1)
      (a.perform b g i w).2 := by
  cases a with
  | inject channel content author => exact h.inject b channel content author
  | pump p =>
    simp only [ChatAct.perform, List.append_nil]
    exact h.pump hu hb p
  | disconnect =>
    simp only [ChatAct.perform, List.append_nil]
    exact h.disconnect

theorem performAll (h : Follows d meaning l g i replies memory accepted w)
    (hu : (Dispatcher.ofDeclaration d).value = .ok u)
    (hb : ∀ m s, b l m s = u.onMessage place meaning m s) (acts : List ChatAct) :
    Follows d meaning l g i replies memory (accepted ++ (ChatAct.performAll b g i acts w).1)
      (ChatAct.performAll b g i acts w).2 := by
  induction acts generalizing accepted w with
  | nil =>
    simp only [ChatAct.performAll, List.append_nil]
    exact h
  | cons a rest ih =>
    simp only [ChatAct.performAll, ← List.append_assoc]
    exact ih (h.perform hu hb a)

/-- A step of a session that is not at rest brings it nearer to rest, or ends it. -/
theorem effort_stepped_lt (h : Follows d meaning l g i replies memory accepted w)
    (hu : (Dispatcher.ofDeclaration d).value = .ok u)
    (hb : ∀ m s, b l m s = u.onMessage place meaning m s) (p : Preference)
    (hbusy : w.isAtRest i = false) :
    ∃ s s', w.sessions[i]? = some s ∧ (w.stepped b p i).sessions[i]? = some s' ∧
      (s'.effort < s.effort ∨ s'.phase = .ended) := by
  obtain ⟨s, handled, hs, hserves, hin, hchan, -, -, -⟩ := h
  have hlisteners := hserves.listeners_eq
  have hopen := hserves.isClosed_eq
  refine ⟨s, ?_⟩
  simp only [Network.isAtRest, hs] at hbusy
  cases hp : s.phase with
  | ended => simp [hp] at hbusy
  | waiting =>
    have hc : s.isClosed = false := hopen (by rw [hp]; nofun)
    cases hq : s.queue with
    | nil =>
      cases hf : w.isFed i with
      | true => simp [hp, hc, Network.isStreamReady, hq, hf] at hbusy
      | false =>
        rw [Network.stepped_waiting_unfed b p hs hp hc hq hf]
        refine ⟨s.ended, hs, ?_, .inr rfl⟩
        rw [Network.session_onSession, hs]
        rfl
    | cons m rest =>
      rw [Network.stepped_waiting_cons b p hs hp hc hq]
      refine ⟨s.taking m rest, hs, ?_, .inl ?_⟩
      · rw [Network.session_onSession, hs]
        rfl
      · simp only [Session.effort, Session.taking, hlisteners, hp, hq, List.length_cons,
          List.length_nil]
        omega
  | handling m left =>
    rcases hserves.left_eq m left hp with rfl | rfl
    · have hm : m.channel.gateway = some g := hchan m (by simp [Session.pending, hp])
      rw [Network.stepped_handling_cons b p hs hp]
      obtain ⟨hsess, -, -⟩ := Dispatcher.call_onMessage hu hb hm
        (w.onSession i fun s => { s with phase := .handling m [] })
      refine ⟨{ s with phase := .handling m [] }, hs, ?_, .inl ?_⟩
      · rw [hsess, Network.session_onSession, hs]
        rfl
      · simp only [Session.effort, hp, List.length_cons, List.length_nil]
        omega
    · rw [Network.stepped_handling_nil b p hs hp]
      refine ⟨{ s with phase := .waiting }, hs, ?_, .inl ?_⟩
      · rw [Network.session_onSession, hs]
        rfl
      · simp only [Session.effort, hp, List.length_nil]
        omega

/-- The task of a session comes to rest when it is given enough steps. -/
theorem exists_isAtRest (h : Follows d meaning l g i replies memory accepted w)
    (hu : (Dispatcher.ofDeclaration d).value = .ok u)
    (hb : ∀ m s, b l m s = u.onMessage place meaning m s) (p : Preference) :
    ∃ n, (ChatAct.performAll b g i (List.replicate n (.pump p)) w).2.isAtRest i = true := by
  have bounded : ∀ k (w : Network ι σ), Follows d meaning l g i replies memory accepted w →
      (∀ s, w.sessions[i]? = some s → s.effort ≤ k) →
        ∃ n, (ChatAct.performAll b g i (List.replicate n (.pump p)) w).2.isAtRest i = true := by
    intro k
    induction k with
    | zero =>
      intro w h hk
      obtain ⟨s, handled, hs, -⟩ := h
      exact absurd (hk s hs) (by simp [Session.effort])
    | succ k ih =>
      intro w h hk
      cases hbusy : w.isAtRest i with
      | true => exact ⟨0, hbusy⟩
      | false =>
        obtain ⟨s, s', hs, hs', hless⟩ := h.effort_stepped_lt hu hb p hbusy
        rcases hless with hless | hended
        · have hk' : ∀ t, (w.stepped b p i).sessions[i]? = some t → t.effort ≤ k := by
            intro t ht
            rw [hs'] at ht
            cases ht
            have := hk s hs
            omega
          obtain ⟨n, hn⟩ := ih _ (h.pump hu hb p) hk'
          exact ⟨n + 1, hn⟩
        · refine ⟨1, ?_⟩
          have hlast : (ChatAct.performAll b g i (List.replicate 1 (.pump p)) w).2 =
              w.stepped b p i := rfl
          rw [hlast, Network.isAtRest, hs']
          simp [hended]
  obtain ⟨s, handled, hs, hrest⟩ := h
  refine bounded s.effort w ⟨s, handled, hs, hrest⟩ ?_
  intro t ht
  rw [hs] at ht
  cases ht
  exact Nat.le_refl _

end

end Follows

/-! ## The law -/

theorem ChatAct.performAll_append (b : Behavior ι σ) (g : GatewayId) (i : SessionId)
    (before behind : List ChatAct) (w : Network ι σ) :
    ChatAct.performAll b g i (before ++ behind) w =
      let r := ChatAct.performAll b g i before w
      let r' := ChatAct.performAll b g i behind r.2
      (r.1 ++ r'.1, r'.2) := by
  induction before generalizing w with
  | nil => simp [ChatAct.performAll]
  | cons a before ih => simp [ChatAct.performAll, ih]

namespace DispatcherRun

variable {d : Declaration} {u : Dispatcher} {meaning : CommandMeaning σ}

/-- Right after the login nothing has been accepted, answered or remembered. -/
theorem follows_loggedIn (r : DispatcherRun ι σ u meaning) (d : Declaration) :
    Follows d meaning r.listener r.gatewayId r.session r.gateway.replies r.start.memory []
      r.loggedIn := by
  have hlogin := r.login_eq
  cases ht : u.token.resolve r.env with
  | error f =>
    have hfailed : (u.runWith r.place r.env r.listener
        ((ClientBuilder.new r.start).withGateway r.gatewayId) r.start).value =
          (.error f, r.start) := by
      simp only [Dispatcher.runWith, ht]
      rfl
    rw [hfailed] at hlogin
    cases hlogin
  | ok token =>
    have hrun : (u.runWith r.place r.env r.listener
        ((ClientBuilder.new r.start).withGateway r.gatewayId) r.start).value =
          (((((ClientBuilder.new r.start).withGateway r.gatewayId).setToken token).listen
            r.listener).login r.start).value := by
      simp only [Dispatcher.runWith, ht]
      rfl
    rw [hrun, ClientBuilder.value_login_loopback _ _ rfl rfl r.gateway_eq r.manner_eq] at hlogin
    obtain ⟨hi, hw⟩ := Prod.mk.inj hlogin
    rw [← hw, ← Except.ok.inj hi]
    refine ⟨_, [], List.getElem?_concat_length, ⟨rfl, nofun, fun _ => rfl⟩, .inr ?_, ?_, rfl, rfl, ?_⟩
    · simp only [Network.inboundOf, Network.gateway_onGateway, r.gateway_eq]
      rfl
    · intro m hm
      exact absurd hm List.not_mem_nil
    · simp only [Network.gateway_onGateway, r.gateway_eq, Declaration.transcript, List.append_nil]
      rfl

theorem follows_final (r : DispatcherRun ι σ u meaning)
    (hu : (Dispatcher.ofDeclaration d).value = .ok u) :
    Follows d meaning r.listener r.gatewayId r.session r.gateway.replies r.start.memory r.accepted
      r.final := by
  have h := (r.follows_loggedIn d).performAll hu r.behavior_listener r.acts
  rw [List.nil_append] at h
  exact h

/-- A run comes to rest when the task of its session is given enough steps. -/
theorem exists_pumped_isAtRest (r : DispatcherRun ι σ u meaning)
    (hu : (Dispatcher.ofDeclaration d).value = .ok u) (p : Preference) :
    ∃ n, (r.pumped p n).final.isAtRest r.session = true := by
  obtain ⟨n, hn⟩ := (r.follows_final hu).exists_isAtRest hu r.behavior_listener p
  refine ⟨n, ?_⟩
  have hfinal : (r.pumped p n).final =
      (ChatAct.performAll r.behavior r.gatewayId r.session (List.replicate n (.pump p)) r.final).2 := by
    simp only [final, outcome, pumped, ChatAct.performAll_append]
  rw [hfinal]
  exact hn

end DispatcherRun

/-- The end-to-end reply law. After a login with a fresh builder through a loopback gateway, and
whatever comes in and whenever the session's task takes its steps: once the session is at rest, as it
comes to be, the gateway holds the replies that the transcript of the accepted messages says, the bot
remembers what the transcript says, and the commands ran as the transcript says. -/
theorem replies_eq_transcript {d : Declaration} {u : Dispatcher}
    (hu : (Dispatcher.ofDeclaration d).value = .ok u) (meaning : CommandMeaning σ) :
    (∀ r : DispatcherRun ι σ u meaning,
      (∀ p, ∃ n, (r.pumped p n).final.isAtRest r.session = true) ∧
      (r.final.isAtRest r.session = true →
        let t := d.transcript meaning r.start.memory r.accepted
        r.outbound = some (r.gateway.replies ++ t.replies) ∧ r.final.memory = t.memory)) ∧
    ∀ r : DispatcherRun ι (σ × List (CommandRun σ)) u meaning.noted,
      r.final.isAtRest r.session = true →
        r.final.memory.2 =
          r.start.memory.2 ++ (d.transcript meaning r.start.memory.1 r.accepted).runs := by
  refine ⟨fun r => ⟨r.exists_pumped_isAtRest hu, fun hrest => ?_⟩, fun r hrest => ?_⟩
  · obtain ⟨hmemory, hreplies⟩ := (r.follows_final hu).handled_of_isAtRest hrest
    exact ⟨hreplies, hmemory⟩
  · obtain ⟨hmemory, -⟩ := (r.follows_final hu).handled_of_isAtRest hrest
    rw [hmemory]
    exact congrArg Prod.snd (d.memory_transcript_noted meaning r.start.memory.1 r.start.memory.2 _)

/-- A bot with a token and with one command. -/
def echoBot : Declaration where
  namespace_ := ""
  name := .made "Echo"
  selfType := ⟨[.made "Echo"]⟩
  attributes :=
    [.make botMarker [.made "token", .mark '=' .alone .generated, .literal "\"abc\"" .generated]]
  commands :=
    [{ owner := ⟨[.made "Echo"]⟩
       signature :=
        { constness := [], asyncness := [], unsafety := [], abi := []
          functionWord := [.made "fn"], name := .made "echo", generics := []
          inputs := [], variadic := [], inputsSpan := .generated
          output := some (TokenTree.operator ['-', '>'], ⟨[.made "String"]⟩), clause := [] }
       docs := [] }]
  origin := none

/-- A conversation with that bot, whose command counts its calls. -/
def echoRun :
    DispatcherRun Unit Nat (Dispatcher.ofSound echoBot (.literal "abc"))
      (fun _ _ n => ⟨n + 1, some (toString n)⟩) where
  place := "echo"
  env := []
  listener := ()
  behavior := fun _ m s =>
    (Dispatcher.ofSound echoBot (.literal "abc")).onMessage "echo"
      (fun _ _ n => ⟨n + 1, some (toString n)⟩) m s
  behavior_listener := fun _ _ => rfl
  start := { gateways := [{ name := "loopback", manner := .loopback }], memory := 7 }
  gatewayId := 0
  gateway := { name := "loopback", manner := .loopback }
  gateway_eq := rfl
  manner_eq := rfl
  session := 0
  loggedIn := _
  login_eq := rfl
  acts :=
    [.inject "general" "!echo" none, .inject "general" "echo" none, .pump .stream,
      .inject "random" "!echo" none] ++ List.replicate 8 (.pump .stream)

theorem replies_eq_transcript_echoBot :
    (Dispatcher.ofDeclaration echoBot).value =
        .ok (Dispatcher.ofSound echoBot (.literal "abc")) ∧
      echoRun.final.isAtRest echoRun.session = true ∧
      echoRun.outbound = some [⟨"general", "7"⟩, ⟨"random", "8"⟩] := by
  have hu : (Dispatcher.ofDeclaration echoBot).value =
      .ok (Dispatcher.ofSound echoBot (.literal "abc")) := by
    refine (Dispatcher.ofDeclaration_eq_ok_iff _ _).2 ⟨?_, .literal "abc", ?_, rfl⟩
    · decide
    · rfl
  have hrest : echoRun.final.isAtRest echoRun.session = true := rfl
  obtain ⟨hreplies, -⟩ := ((replies_eq_transcript hu _).1 echoRun).2 hrest
  exact ⟨hu, hrest, hreplies⟩

end CommandBot
