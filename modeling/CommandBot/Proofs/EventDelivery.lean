import CommandBot.Proofs.LaterActs

/-
  Delivery. Of the messages that were accepted for a session, none is lost, doubled or overtaken, as
  long as nobody shuts the session down: what its task took and what is left in the queue is what
  was accepted (`Delivers`), and each message that was taken goes to each listener that was
  registered then. The calls that a history tells of are the calls that were made (`delivers_run`),
  which `Behavior.noted` makes visible.
-/

namespace CommandBot

variable {ι σ : Type}

open History

/-! ## Calls that are noted -/

/-- The listeners, each of which also notes what it is called with. -/
def Behavior.noted (b : Behavior ι σ) : Behavior ι (σ × List (Message × ι)) := fun l m s =>
  let r := b l m s.1
  { memory := (r.memory, s.2 ++ [(m, l)]), deeds := r.deeds, panics := r.panics }

namespace Deed

/-- Only calls of listeners change what is remembered. -/
theorem memory_after (d : Deed ι) (w : Network ι σ) : (d.after w).memory = w.memory := by
  rcases d.after_cases w with h | ⟨i, f, h⟩ | ⟨g, f, h⟩
  · rw [h]
  · rw [h, Network.memory_onSession]
  · rw [h]
    rfl

theorem calls_occurrences (d : Deed ι) (w : Network ι σ) (h : History ι) :
    calls (d.occurrences w ++ h) = calls h := by
  cases d with
  | inject g m =>
    rw [occurrences]
    split <;> rfl
  | send channel content => rfl
  | log e => rfl
  | listen i l => rfl
  | shutdown i => rfl
  | disconnect g => rfl

end Deed

namespace Course

/-- What listeners noted is what the history tells. -/
def IsNoted (c : Course ι (σ × List (Message × ι))) : Prop :=
  c.network.memory.2 = calls c.history

namespace IsNoted

variable {c : Course ι (σ × List (Message × ι))}

theorem deeds (h : c.IsNoted) (ds : List (Deed ι)) : (c.deeds ds).IsNoted := by
  induction ds generalizing c with
  | nil => exact h
  | cons d ds ih =>
    refine ih ?_
    show (d.after c.network).memory.2 = calls (d.occurrences c.network ++ c.history)
    rw [d.memory_after, d.calls_occurrences]
    exact h

theorem login (h : c.IsNoted) (client : ClientBuilder ι) : (c.login client).IsNoted := by
  have hstep := loggedIn client c
  generalize c.login client = c' at hstep ⊢
  cases hstep with
  | failed => exact h
  | opened hgw hopens => exact h

theorem pump (h : c.IsNoted) (b : Behavior ι σ) (p : Preference) (i : SessionId) :
    (c.pump b.noted p i).IsNoted := by
  have hstep := pumped b.noted p i c
  generalize c.pump b.noted p i = c' at hstep ⊢
  cases hstep with
  | idle => exact h
  | @called s m l left hs hp =>
    have hcalling : (c.calling b.noted i m l left).IsNoted := by
      show c.network.memory.2 ++ [(m, l)] = calls c.history ++ [(m, l)]
      rw [h]
    exact hcalling.deeds _
  | finished hs hp => exact h
  | took hs hp hq hopen => exact h
  | ended hs hp hend => exact h

theorem run (h : c.IsNoted) (b : Behavior ι σ) (acts : List (NetworkAct ι)) :
    (c.run b.noted acts).IsNoted := by
  induction acts generalizing c with
  | nil => exact h
  | cons a acts ih =>
    refine ih ?_
    cases a with
    | login client => exact h.login client
    | deed d => exact h.deeds [d]
    | pump p i => exact h.pump b p i

end IsNoted

/-! ## What becomes of messages -/

/-- What became of the messages that were accepted for a session. -/
structure Delivers (b : Behavior ι σ) (c : Course ι σ) (i : SessionId) (s : Session ι) : Prop where
  listeners_eq : s.listeners = (ledger i c.history).listeners
  /-- the task took the first of the messages, in order, and the others wait -/
  accepted_eq : (ledger i c.history).accepted = (ledger i c.history).taken ++ s.queue
  /-- who was registered when a message was taken is called with it once, in order -/
  owed_eq : (ledger i c.history).owed = (ledger i c.history).calls ++ s.dueCalls
  /-- a task at rest has handled everything -/
  rest : c.network.isAtRest i = true →
    (ledger i c.history).taken = (ledger i c.history).accepted ∧
      (ledger i c.history).calls = (ledger i c.history).owed
  /-- a task that has ended has handled everything, and its session is closed from then on -/
  ended : s.phase = .ended →
    (ledger i c.history).taken = (ledger i c.history).accepted ∧
      (ledger i c.history).calls = (ledger i c.history).owed ∧
      ∀ more, ∃ s', (c.run b more).network.sessions[i]? = some s' ∧ s'.isClosed = true

namespace Sound

variable {c : Course ι σ} {i : SessionId} {s : Session ι}

/-- A task that is not handling a message owes no calls. -/
theorem calls_eq_owed (h : c.Sound) (hs : c.network.sessions[i]? = some s)
    (hp : ∀ m left, s.phase ≠ .handling m left) :
    (ledger i c.history).calls = (ledger i c.history).owed := by
  have hdue : s.dueCalls = [] := by
    rw [Session.dueCalls]
    split
    · exact absurd ‹_› (hp _ _)
    · rfl
  rw [(h.session hs).owed_eq, hdue, List.append_nil]

/-- An ended session is closed from then on. -/
theorem isClosed_run (h : c.Sound) (hs : c.network.sessions[i]? = some s) (hp : s.phase = .ended)
    (b : Behavior ι σ) (more : List (NetworkAct ι)) :
    ∃ s', (c.run b more).network.sessions[i]? = some s' ∧ s'.isClosed = true := by
  have hi : i < c.network.sessions.length := (List.getElem?_eq_some_iff.mp hs).1
  have hleads := h.leads_run b more
  have hlater := h.run b more
  obtain ⟨s', hs'⟩ : ∃ s', (c.run b more).network.sessions[i]? = some s' :=
    ⟨_, List.getElem?_eq_getElem (Nat.lt_of_lt_of_le hi hleads.length_le)⟩
  have hended := hleads.hasEnded hi ((h.session hs).ended_iff.mpr hp)
  exact ⟨s', hs', (hlater.session hs').closed_iff.mpr (.inr hended)⟩

theorem delivers (h : c.Sound) (b : Behavior ι σ) (hs : c.network.sessions[i]? = some s)
    (hkept : (ledger i c.history).isShutDown = false) : c.Delivers b i s := by
  have hagrees := h.session hs
  have haccepted := hagrees.accepted_eq (.inr hkept)
  have hempty : s.queue = [] → (ledger i c.history).taken = (ledger i c.history).accepted := by
    intro hq
    rw [haccepted, hq, List.append_nil]
  have hended : s.phase = .ended →
      (ledger i c.history).taken = (ledger i c.history).accepted ∧
        (ledger i c.history).calls = (ledger i c.history).owed := by
    intro hp
    exact ⟨hempty (hagrees.queue_eq (hagrees.ended_iff.mpr hp)), h.calls_eq_owed hs (by simp [hp])⟩
  refine ⟨hagrees.listeners_eq, haccepted, hagrees.owed_eq, fun hrest => ?_, fun hp => ?_⟩
  · rw [Network.isAtRest, hs] at hrest
    cases hp : s.phase with
    | ended => exact hended hp
    | handling m left => simp [hp] at hrest
    | waiting =>
      simp only [hp, Network.isStreamReady, Bool.and_eq_true, Bool.not_eq_true',
        Bool.or_eq_false_iff, Bool.not_eq_false', List.isEmpty_iff] at hrest
      exact ⟨hempty hrest.2.1, h.calls_eq_owed hs (by simp [hp])⟩
  · exact ⟨(hended hp).1, (hended hp).2, h.isClosed_run hs hp b⟩

end Sound

/-- No message is lost, doubled or overtaken. On a network of fresh gateways, whoever logs in,
whatever comes in, whoever registers or disconnects, and whenever the tasks take their steps: a
session that nobody shut down delivers the messages that were accepted for it. And the calls of
listeners that a history tells of are those that were made. -/
theorem delivers_run (gateways : List (String × Manner)) (memory : σ) (b : Behavior ι σ)
    (acts : List (NetworkAct ι)) :
    (let c := (start gateways memory).run b acts
      ∀ i s, c.network.sessions[i]? = some s → (ledger i c.history).isShutDown = false →
        c.Delivers b i s) ∧
    ((start gateways (memory, ([] : List (Message × ι)))).run b.noted acts).IsNoted := by
  constructor
  · intro c i s hs hkept
    have hsound : c.Sound := sound_run gateways memory b acts
    exact hsound.delivers b hs hkept
  · have hstart : (start gateways (memory, ([] : List (Message × ι)))).IsNoted := rfl
    exact hstart.run b acts

/-- A listener that registers a second one whenever it is called, which does nothing. -/
def recruiting : Behavior Bool Unit := fun l _ memory =>
  { memory, deeds := if l then [.listen 0 false] else [] }

/-- A message on a channel that nothing goes out on. -/
def remark (content : String) : Message := { content, channel := ⟨"general", none⟩ }

/-- Two messages come in, the second listener is registered with the first of them, and the gateway
connects a second session before the first one has come to the second message. -/
def replacedRun : Course Bool Unit :=
  (start [("loopback", .loopback)] ()).run recruiting
    ([.login { token := some "first", gateway := some 0, listeners := [true] },
      .deed (.inject 0 (remark "a")), .deed (.inject 0 (remark "b")), .pump .stream 0,
      .deed (.disconnect 0), .pump .stream 0,
      .login { token := some "second", gateway := some 0 }, .deed (.inject 0 (remark "c"))] ++
      List.replicate 6 (.pump .stream 0))

theorem delivers_run_replaced :
    (replacedRun.network.sessions[0]?).map Session.phase = some .ended ∧
      (ledger 0 replacedRun.history).isShutDown = false ∧
      (ledger 0 replacedRun.history).accepted = [remark "a", remark "b"] ∧
      (ledger 0 replacedRun.history).calls =
        [(remark "a", true), (remark "b", true), (remark "b", false)] ∧
      (ledger 0 replacedRun.history).taken = [remark "a", remark "b"] := by
  have hphase : (replacedRun.network.sessions[0]?).map Session.phase = some .ended := rfl
  have hkept : (ledger 0 replacedRun.history).isShutDown = false := rfl
  have haccepted : (ledger 0 replacedRun.history).accepted = [remark "a", remark "b"] := rfl
  obtain ⟨s, hs, hp⟩ := Option.map_eq_some_iff.mp hphase
  have hdelivers := (delivers_run _ () recruiting _).1 0 s hs hkept
  obtain ⟨htaken, hcalls, -⟩ := hdelivers.ended hp
  exact ⟨hphase, hkept, haccepted, hcalls, htaken.trans haccepted⟩

end Course

end CommandBot
