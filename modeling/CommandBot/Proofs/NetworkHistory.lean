import CommandBot.Proofs.SessionSteps

/-
  What happens on a network, from its opening on. A `Course` is a network with its history; what was
  before an occurrence is the rest of the list, since the latest one comes first. The network of a
  course is where the acts of clients, gateways and tasks lead, and the history only looks on.
  `Ledger` is what the history says of one session, and `pumped` is all that a step of a task can
  do.
-/

namespace CommandBot

variable {ι σ : Type}

/-! ## Histories -/

/-- Something that happens to one session. -/
inductive SessionEvent (ι : Type) where
  | registered (l : ι)
  | shutDown
  /-- the task took the first message of the queue -/
  | took (m : Message)
  /-- the task gave a message to a listener -/
  | called (m : Message) (l : ι)
  /-- the task ended -/
  | ended

/-- Something that happens on a network. -/
inductive Occurrence (ι : Type) where
  /-- a gateway opened a session, with these listeners, in which these messages wait -/
  | connected (g : GatewayId) (i : SessionId) (token : String) (listeners : List ι)
    (waiting : List Message)
  | disconnected (g : GatewayId)
  | accepted (g : GatewayId) (m : Message)
  | refused (g : GatewayId) (m : Message)
  | inSession (i : SessionId) (e : SessionEvent ι)

/-- What happened, the latest first. -/
abbrev History (ι : Type) := List (Occurrence ι)

/-- What is known of a session: the messages accepted for it and those its task took, in order, the
listeners registered now, the calls owed to listeners and those made. -/
structure Ledger (ι : Type) where
  accepted : List Message := []
  taken : List Message := []
  listeners : List ι := []
  owed : List (Message × ι) := []
  calls : List (Message × ι) := []
  isShutDown : Bool := false
  hasEnded : Bool := false

namespace Ledger

/-- One more message. -/
def accept (r : Ledger ι) (m : Message) : Ledger ι := { r with accepted := r.accepted ++ [m] }

/-- One more event. A message that is taken is owed to whoever is registered then. -/
def add (r : Ledger ι) : SessionEvent ι → Ledger ι
  | .registered l => { r with listeners := r.listeners ++ [l] }
  | .shutDown => { r with isShutDown := true }
  | .took m => { r with taken := r.taken ++ [m], owed := r.owed ++ r.listeners.map (m, ·) }
  | .called m l => { r with calls := r.calls ++ [(m, l)] }
  | .ended => { r with hasEnded := true }

end Ledger

namespace History

/-- The session that a gateway opened last, with its token. -/
def latest? (g : GatewayId) : History ι → Option (SessionId × String)
  | [] => none
  | .connected g' i token _ _ :: h => if g' = g then some (i, token) else latest? g h
  | _ :: h => latest? g h

/-- The session that a gateway opened last, unless it was disconnected since. -/
def fed? (g : GatewayId) : History ι → Option SessionId
  | [] => none
  | .connected g' i _ _ _ :: h => if g' = g then some i else fed? g h
  | .disconnected g' :: h => if g' = g then none else fed? g h
  | _ :: h => fed? g h

/-- The gateway that a session was opened through. -/
def opener? (i : SessionId) : History ι → Option GatewayId
  | [] => none
  | .connected g j _ _ _ :: h => if j = i then some g else opener? i h
  | _ :: h => opener? i h

/-- What is known of a session. A message is accepted for the session opened last by its gateway. -/
def ledger (i : SessionId) : History ι → Ledger ι
  | [] => {}
  | .connected _ j _ listeners waiting :: h =>
    if j = i then { accepted := waiting, listeners } else ledger i h
  | .accepted g m :: h =>
    if (latest? g h).map Prod.fst = some i then (ledger i h).accept m else ledger i h
  | .inSession j e :: h => if j = i then (ledger i h).add e else ledger i h
  | _ :: h => ledger i h

/-- All calls of listeners, in order. -/
def calls : History ι → List (Message × ι)
  | [] => []
  | .inSession _ (.called m l) :: h => calls h ++ [(m, l)]
  | _ :: h => calls h

/-- What a gateway feeds is the session that it opened last. -/
theorem latest?_of_fed? {g : GatewayId} {i : SessionId} {h : History ι}
    (hfed : fed? g h = some i) : (latest? g h).map Prod.fst = some i := by
  induction h with
  | nil => cases hfed
  | cons o h ih =>
    cases o with
    | connected g' j token ls ms =>
      simp only [fed?] at hfed
      simp only [latest?]
      split at hfed
      · cases hfed
        simp_all
      · simp_all
    | disconnected g' =>
      simp only [fed?] at hfed
      split at hfed
      · cases hfed
      · exact ih hfed
    | accepted g' m => exact ih hfed
    | refused g' m => exact ih hfed
    | inSession j e => exact ih hfed

end History

/-! ## Courses -/

/-- Listeners that do nothing. -/
def Behavior.idle : Behavior ι σ := fun _ _ memory => .none memory

/-- A network, and what happened on it. -/
structure Course (ι σ : Type) where
  network : Network ι σ
  history : History ι := []

/-- The network after a deed. -/
def Deed.after (d : Deed ι) (w : Network ι σ) : Network ι σ := (d.perform w).value.2

/-- What happens by a deed. -/
def Deed.occurrences (w : Network ι σ) : Deed ι → History ι
  | .inject g m =>
    match (w.inject g m).1 with
    | .ok _ => [.accepted g m]
    | .error _ => [.refused g m]
  | .listen i l => [.inSession i (.registered l)]
  | .shutdown i => [.inSession i .shutDown]
  | .disconnect g => [.disconnected g]
  | .send _ _ => []
  | .log _ => []

/-- What happens on a network: a client logs in, someone does something, from outside, or the task
of a session takes a step. -/
inductive NetworkAct (ι : Type) where
  | login (c : ClientBuilder ι)
  | deed (d : Deed ι)
  | pump (p : Preference) (i : SessionId)

/-- A deed changes one session, or one gateway, or nothing. -/
theorem Deed.after_cases (d : Deed ι) (w : Network ι σ) :
    d.after w = w ∨ (∃ i f, d.after w = w.onSession i f) ∨ ∃ g f, d.after w = w.onGateway g f := by
  cases d with
  | inject g m =>
    show (w.inject g m).2 = w ∨ _
    cases hg : w.isConnected g with
    | false => exact .inl (congrArg Prod.snd (Network.inject_of_not_isConnected hg m))
    | true =>
      obtain ⟨i, -, -, hinject⟩ := Network.inject_of_isConnected hg m
      exact .inr (.inl ⟨i, _, congrArg Prod.snd hinject⟩)
  | send channel content =>
    show (w.send channel content).2 = w ∨ _ ∨ ∃ g f, (w.send channel content).2 = w.onGateway g f
    unfold Network.send
    split
    · exact .inl rfl
    · exact .inr (.inr ⟨_, _, rfl⟩)
  | log e => exact .inl rfl
  | listen i l => exact .inr (.inl ⟨i, _, rfl⟩)
  | shutdown i => exact .inr (.inl ⟨i, _, rfl⟩)
  | disconnect g =>
    show (w.disconnect g).value = w ∨ _ ∨ ∃ g' f, (w.disconnect g).value = w.onGateway g' f
    unfold Network.disconnect
    split
    · exact .inl rfl
    · exact .inr (.inr ⟨g, _, rfl⟩)

namespace Course

/-- A network of fresh gateways, on which nothing has happened. -/
def start (gateways : List (String × Manner)) (memory : σ) : Course ι σ where
  network := { gateways := gateways.map fun g => { name := g.1, manner := g.2 }, memory }

/-- After something that someone does. -/
def deed (c : Course ι σ) (d : Deed ι) : Course ι σ :=
  ⟨d.after c.network, d.occurrences c.network ++ c.history⟩

/-- After some deeds, one after the other. -/
def deeds (c : Course ι σ) (ds : List (Deed ι)) : Course ι σ := ds.foldl deed c

/-- After a login, which opens a session if it succeeds. -/
def login (c : Course ι σ) (client : ClientBuilder ι) : Course ι σ :=
  let result := (client.login c.network).value
  let opened : Option (Occurrence ι) := do
    let i ← result.1.toOption
    let s ← result.2.sessions[i]?
    return .connected (← client.gateway) i (← client.token) s.listeners s.queue
  ⟨result.2, opened.toList ++ c.history⟩

/-- At the call of the next listener, before the call does anything but remember. -/
def calling (b : Behavior ι σ) (i : SessionId) (m : Message) (l : ι) (left : List ι)
    (c : Course ι σ) : Course ι σ :=
  let w := c.network.onSession i fun s => { s with phase := .handling m left }
  ⟨{ w with memory := (b l m w.memory).memory }, .inSession i (.called m l) :: c.history⟩

/-- The history after a step of the task of a session. What a waiting task did shows in the phase
that it is in afterwards. -/
def pumpHistory (b : Behavior ι σ) (p : Preference) (i : SessionId) (c : Course ι σ) : History ι :=
  match (c.network.sessions[i]?).map Session.phase with
  | some (.handling m (l :: left)) =>
    ((c.calling b i m l left).deeds (b l m c.network.memory).deeds).history
  | some .waiting =>
    match ((c.network.stepped b p i).sessions[i]?).map Session.phase with
    | some (.handling m _) => .inSession i (.took m) :: c.history
    | some .ended => .inSession i .ended :: c.history
    | _ => c.history
  | _ => c.history

/-- After a step of the task of a session. -/
def pump (b : Behavior ι σ) (p : Preference) (i : SessionId) (c : Course ι σ) : Course ι σ :=
  ⟨c.network.stepped b p i, c.pumpHistory b p i⟩

def act (b : Behavior ι σ) (c : Course ι σ) : NetworkAct ι → Course ι σ
  | .login client => c.login client
  | .deed d => c.deed d
  | .pump p i => c.pump b p i

/-- After some acts, one after the other. -/
def run (b : Behavior ι σ) (c : Course ι σ) (acts : List (NetworkAct ι)) : Course ι σ :=
  acts.foldl (act b) c

/-! ## What an injection can do -/

theorem deed_inject_of_isConnected {c : Course ι σ} {g : GatewayId}
    (hg : c.network.isConnected g = true) (m : Message) :
    ∃ i, c.network.inboundOf g = some i ∧ c.network.takesMessages i = true ∧
      c.deed (.inject g m) =
        ⟨c.network.onSession i fun s => { s with queue := s.queue ++ [m] },
          .accepted g m :: c.history⟩ := by
  obtain ⟨i, hin, htakes, hinject⟩ := Network.inject_of_isConnected hg m
  refine ⟨i, hin, htakes, ?_⟩
  show (⟨(c.network.inject g m).2, _⟩ : Course ι σ) = _
  simp only [Deed.occurrences, hinject]
  rfl

theorem deed_inject_of_not_isConnected {c : Course ι σ} {g : GatewayId}
    (hg : c.network.isConnected g = false) (m : Message) :
    c.deed (.inject g m) = ⟨c.network, .refused g m :: c.history⟩ := by
  show (⟨(c.network.inject g m).2, _⟩ : Course ι σ) = _
  simp only [Deed.occurrences, Network.inject_of_not_isConnected hg m]
  rfl

/-! ## What a login can do -/

end Course

/-- What a gateway that opens session `i` gives, and what it is then. -/
inductive Gateway.Opens (gw : Gateway) (i : SessionId) (token : String) : Stream → Gateway → Prop
  | loopback (hm : gw.manner = .loopback) :
    Opens gw i token {} { gw with inbound := some i, token := some token }
  | backlog (hm : gw.manner ≠ .loopback) (stream : Stream) : Opens gw i token stream gw

theorem Gateway.connect_cases (gw : Gateway) (g : GatewayId) (i : SessionId) (token : String) :
    (∃ f, (gw.connect g i token).value = (.error f, gw)) ∨
      ∃ stream gw', (gw.connect g i token).value = (.ok stream, gw') ∧
        gw.Opens i token stream gw' := by
  obtain ⟨name, manner, inbound, token', replies⟩ := gw
  cases manner with
  | loopback => exact .inr ⟨_, _, rfl, .loopback rfl⟩
  | backlog contents staysOpen => exact .inr ⟨_, _, rfl, .backlog (fun hm => by cases hm) _⟩
  | refusing reason => exact .inl ⟨_, rfl⟩

namespace Course

/-- All that a login can do. -/
inductive LoggedIn (client : ClientBuilder ι) (c : Course ι σ) : Course ι σ → Prop
  | failed : LoggedIn client c c
  | opened {g : GatewayId} {gw gw' : Gateway} {token : String} {stream : Stream}
    (hgw : c.network.gateways[g]? = some gw)
    (hopens : gw.Opens c.network.sessions.length token stream gw') :
    LoggedIn client c
      ⟨{ c.network.onGateway g fun _ => gw' with
          sessions := c.network.sessions ++ [client.session gw stream] },
        .connected g c.network.sessions.length token client.listeners stream.queue :: c.history⟩

theorem loggedIn (client : ClientBuilder ι) (c : Course ι σ) :
    LoggedIn client c (c.login client) := by
  have hfailed : ∀ f, (client.login c.network).value = (.error f, c.network) →
      LoggedIn client c (c.login client) := by
    intro f hf
    have hlogin : c.login client = c := by
      simp only [login, hf]
      rfl
    rw [hlogin]
    exact .failed
  cases ht : client.token with
  | none => exact hfailed _ (congrArg Logged.value (client.login_of_noToken c.network ht))
  | some token =>
    cases hg : client.gateway with
    | none => exact hfailed _ (congrArg Logged.value (client.login_of_noGateway c.network ht hg))
    | some g =>
      cases hgw : c.network.gateways[g]? with
      | none => exact hfailed _ (client.value_login_of_unknown c.network ht hg hgw)
      | some gw =>
        have hvalue := client.value_login c.network ht hg hgw
        rw [client.value_enter] at hvalue
        rcases gw.connect_cases g c.network.sessions.length token with
          ⟨f, hf⟩ | ⟨stream, gw', hok, hopens⟩
        · rw [hf] at hvalue
          dsimp only at hvalue
          rw [Network.onGateway_eq_self hgw] at hvalue
          exact hfailed f hvalue
        · rw [hok] at hvalue
          have hlogin : c.login client =
              ⟨{ c.network.onGateway g fun _ => gw' with
                  sessions := c.network.sessions ++ [client.session gw stream] },
                .connected g c.network.sessions.length token client.listeners stream.queue ::
                  c.history⟩ := by
            simp only [login, hvalue, ht, hg, Except.toOption, Option.bind_eq_bind,
              Option.bind_some, List.getElem?_concat_length]
            rfl
          rw [hlogin]
          exact .opened hgw hopens

/-! ## What a step of a task can do -/

theorem network_deeds (c : Course ι σ) (ds : List (Deed ι)) :
    (c.deeds ds).network = (ds.forM Deed.perform c.network).value.2 := by
  induction ds generalizing c with
  | nil => rfl
  | cons d ds ih => exact ih (c.deed d)

/-- All that a step of the task of a session can do. -/
inductive Pumped (b : Behavior ι σ) (p : Preference) (i : SessionId) (c : Course ι σ) :
    Course ι σ → Prop
  | idle : Pumped b p i c c
  | called {s : Session ι} {m : Message} {l : ι} {left : List ι}
    (hs : c.network.sessions[i]? = some s) (hp : s.phase = .handling m (l :: left)) :
    Pumped b p i c ((c.calling b i m l left).deeds (b l m c.network.memory).deeds)
  | finished {s : Session ι} {m : Message} (hs : c.network.sessions[i]? = some s)
    (hp : s.phase = .handling m []) :
    Pumped b p i c ⟨c.network.onSession i fun s => { s with phase := .waiting }, c.history⟩
  | took {s : Session ι} {m : Message} {rest : List Message}
    (hs : c.network.sessions[i]? = some s) (hp : s.phase = .waiting) (hq : s.queue = m :: rest)
    (hopen : s.isClosed = true → p = .stream) :
    Pumped b p i c
      ⟨c.network.onSession i fun s => s.taking m rest, .inSession i (.took m) :: c.history⟩
  | ended {s : Session ι} (hs : c.network.sessions[i]? = some s) (hp : s.phase = .waiting)
    (hend : s.isClosed = true ∨ s.queue = []) :
    Pumped b p i c ⟨c.network.onSession i Session.ended, .inSession i .ended :: c.history⟩

theorem pumped (b : Behavior ι σ) (p : Preference) (i : SessionId) (c : Course ι σ) :
    Pumped b p i c (c.pump b p i) := by
  cases hs : c.network.sessions[i]? with
  | none =>
    have hidle : c.pump b p i = c := by
      simp only [pump, pumpHistory, hs, Option.map_none]
      rw [Network.stepped_none b p hs]
    rw [hidle]
    exact .idle
  | some s =>
    cases hp : s.phase with
    | ended =>
      have hidle : c.pump b p i = c := by
        simp only [pump, pumpHistory, hs, Option.map_some, hp]
        rw [Network.stepped_ended b p hs hp]
      rw [hidle]
      exact .idle
    | handling m left =>
      cases left with
      | nil =>
        have hstep : c.pump b p i =
            ⟨c.network.onSession i fun s => { s with phase := .waiting }, c.history⟩ := by
          simp only [pump, pumpHistory, hs, Option.map_some, hp]
          rw [Network.stepped_handling_nil b p hs hp]
        rw [hstep]
        exact .finished hs hp
      | cons l left =>
        have hstep : c.pump b p i =
            (c.calling b i m l left).deeds (b l m c.network.memory).deeds := by
          have hnetwork : c.network.stepped b p i =
              ((c.calling b i m l left).deeds (b l m c.network.memory).deeds).network := by
            rw [Network.stepped_handling_cons b p hs hp, network_deeds]
            rfl
          simp only [pump, pumpHistory, hs, Option.map_some, hp]
          rw [hnetwork]
        rw [hstep]
        exact .called hs hp
    | waiting =>
      -- a waiting task ends, takes a message or does nothing, and its phase tells which
      have hstep := Network.stepped_waiting b p hs hp
      have hphase : ∀ f : Session ι → Session ι, c.network.stepped b p i = c.network.onSession i f →
          ((c.network.stepped b p i).sessions[i]?).map Session.phase = some (f s).phase := by
        intro f hf
        rw [hf, Network.session_onSession, hs]
        rfl
      simp only [pump, pumpHistory, hs, Option.map_some, hp]
      split at hstep
      · rename_i hend
        rw [hphase _ hstep, hstep]
        rw [Bool.and_eq_true] at hend
        exact .ended hs hp (.inl hend.1)
      · rename_i hstay
        split at hstep
        · rename_i hready
          cases hq : s.queue with
          | nil =>
            rw [hq] at hstep
            rw [hphase _ hstep, hstep]
            exact .ended hs hp (.inr hq)
          | cons m rest =>
            rw [hq] at hstep
            rw [hphase _ hstep, hstep]
            refine .took hs hp hq fun hclosed => ?_
            rw [hclosed, hready] at hstay
            cases p with
            | stream => rfl
            | shutdown => exact absurd rfl hstay
        · rw [hstep, hs, Option.map_some, hp]
          exact .idle

end Course

end CommandBot
