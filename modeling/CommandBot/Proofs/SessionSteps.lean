import CommandBot.Chat.Client

/-
  What one step of a session's task does, by the phase that the task is in, and what the acts on a
  network do to one session and to one gateway. `stepped` is the network after a step.
-/

namespace CommandBot.Network

variable {ι σ : Type}

/-! ## Views of a changed network -/

theorem session_onSession (w : Network ι σ) (i : SessionId) (f : Session ι → Session ι) :
    (w.onSession i f).sessions[i]? = (w.sessions[i]?).map f := by
  rw [onSession, List.getElem?_modify]
  simp

theorem gateway_onGateway (w : Network ι σ) (g : GatewayId) (f : Gateway → Gateway) :
    (w.onGateway g f).gateways[g]? = (w.gateways[g]?).map f := by
  rw [onGateway, List.getElem?_modify]
  simp

theorem session_onSession_of_ne (w : Network ι σ) {i j : SessionId} (h : j ≠ i)
    (f : Session ι → Session ι) : (w.onSession i f).sessions[j]? = w.sessions[j]? := by
  simp only [onSession, List.getElem?_modify_ne _ _ (Ne.symm h)]

theorem gateway_onGateway_of_ne (w : Network ι σ) {g g' : GatewayId} (h : g' ≠ g)
    (f : Gateway → Gateway) : (w.onGateway g f).gateways[g']? = w.gateways[g']? := by
  simp only [onGateway, List.getElem?_modify_ne _ _ (Ne.symm h)]

/-- Putting a gateway where it stands changes nothing. -/
theorem onGateway_eq_self {w : Network ι σ} {g : GatewayId} {gw : Gateway}
    (h : w.gateways[g]? = some gw) : (w.onGateway g fun _ => gw) = w := by
  have hgateways : w.gateways.modify g (fun _ => gw) = w.gateways := by
    refine List.ext_getElem? fun j => ?_
    by_cases hj : j = g
    · subst hj
      rw [List.getElem?_modify_eq, h]
      rfl
    · exact List.getElem?_modify_ne _ _ (Ne.symm hj)
  rw [onGateway, hgateways]

theorem length_sessions_onSession (w : Network ι σ) (i : SessionId) (f : Session ι → Session ι) :
    (w.onSession i f).sessions.length = w.sessions.length :=
  List.length_modify _ _ _

theorem gateways_onSession (w : Network ι σ) (i : SessionId) (f : Session ι → Session ι) :
    (w.onSession i f).gateways = w.gateways := rfl

theorem memory_onSession (w : Network ι σ) (i : SessionId) (f : Session ι → Session ι) :
    (w.onSession i f).memory = w.memory := rfl

/-! ## Messages that come in -/

/-- A session takes messages until its task has ended. -/
theorem takesMessages_eq_true_iff (w : Network ι σ) (i : SessionId) :
    w.takesMessages i = true ↔ ∃ s, w.sessions[i]? = some s ∧ s.phase ≠ .ended := by
  have hopen : ∀ s : Session ι, (!s.hasEnded) = true ↔ s.phase ≠ .ended := by
    intro s
    rw [Session.hasEnded]
    split
    · simp [*]
    · exact iff_of_true rfl ‹_›
  simp only [takesMessages, Option.any_eq_true, hopen]

/-- A message that is accepted goes to the session that the gateway feeds, which takes messages. -/
theorem inject_of_isConnected {w : Network ι σ} {g : GatewayId} (h : w.isConnected g = true)
    (m : Message) : ∃ i, w.inboundOf g = some i ∧ w.takesMessages i = true ∧
      w.inject g m = (.ok (), w.onSession i fun s => { s with queue := s.queue ++ [m] }) := by
  rw [isConnected, Option.any_eq_true] at h
  obtain ⟨i, hin, htakes⟩ := h
  refine ⟨i, hin, htakes, ?_⟩
  rw [inject, hin]
  simp only [htakes]
  rfl

theorem inject_of_not_isConnected {w : Network ι σ} {g : GatewayId} (h : w.isConnected g = false)
    (m : Message) : w.inject g m = (.error .closed, w) := by
  rw [isConnected] at h
  cases hin : w.inboundOf g with
  | none => rw [inject, hin]
  | some i =>
    rw [hin, Option.any_some] at h
    rw [inject, hin]
    simp only [h]
    rfl

/-! ## Steps -/

/-- The network after one step of the task of a session. -/
def stepped (b : Behavior ι σ) (p : Preference) (i : SessionId) (w : Network ι σ) : Network ι σ :=
  (advance b p i w).value.2

section

variable (b : Behavior ι σ) (p : Preference) {i : SessionId} {w : Network ι σ} {s : Session ι}

theorem stepped_eq (h : w.sessions[i]? = some s) :
    stepped b p i w = (s.step b p i w).value.2 := by
  have hget : (w.sessions[i]?) = some s := h
  simp only [stepped, advance, bind, StateT.bind, get, getThe, MonadStateOf.get, StateT.get, pure]
  simp only [hget]
  rfl

theorem stepped_none (h : w.sessions[i]? = none) : stepped b p i w = w := by
  have hget : (w.sessions[i]?) = none := h
  simp only [stepped, advance, bind, StateT.bind, get, getThe, MonadStateOf.get, StateT.get, pure]
  simp only [hget]
  rfl

theorem stepped_ended (h : w.sessions[i]? = some s) (hp : s.phase = .ended) :
    stepped b p i w = w := by
  rw [stepped_eq b p h, Session.step, hp]
  rfl

theorem stepped_handling_cons {m : Message} {l : ι} {left : List ι}
    (h : w.sessions[i]? = some s) (hp : s.phase = .handling m (l :: left)) :
    stepped b p i w =
      (b.call l m (w.onSession i fun s => { s with phase := .handling m left })).value.2 := by
  rw [stepped_eq b p h, Session.step, hp]
  have hlog : ∀ r : Bool × Network ι σ,
      (((if r.1 then (Logged.log (Session.panickedEvent m) : Logged _) else pure ()) :
        Exchange ι σ Unit) r.2).value.2 = r.2 := by
    rintro ⟨panicked, w'⟩
    cases panicked <;> rfl
  exact hlog (b.call l m (w.onSession i fun s => { s with phase := .handling m left })).value

theorem stepped_handling_nil {m : Message} (h : w.sessions[i]? = some s)
    (hp : s.phase = .handling m []) :
    stepped b p i w = w.onSession i fun s => { s with phase := .waiting } := by
  rw [stepped_eq b p h, Session.step, hp]
  rfl

/-- A waiting task ends, takes the next message, or stays as it is. -/
theorem stepped_waiting (h : w.sessions[i]? = some s) (hp : s.phase = .waiting) :
    stepped b p i w =
      if s.isClosed && !(w.isStreamReady i s && p == .stream) then w.onSession i Session.ended
      else if w.isStreamReady i s then
        match s.queue with
        | [] => w.onSession i Session.ended
        | m :: rest => w.onSession i fun s => s.taking m rest
      else w := by
  have hrun : (s.step b p i w).value.2 =
      ((if s.isClosed && !(w.isStreamReady i s && p == .stream) then
          Session.finish i Session.shutDownEvent
        else if w.isStreamReady i s then s.attend i else pure () :
          Exchange ι σ Unit) w).value.2 := by
    rw [Session.step, hp]
    rfl
  rw [stepped_eq b p h, hrun]
  by_cases hend : (s.isClosed && !(w.isStreamReady i s && p == .stream)) = true
  · rw [if_pos hend, if_pos hend]
    rfl
  · rw [if_neg hend, if_neg hend]
    by_cases hready : w.isStreamReady i s = true
    · rw [if_pos hready, if_pos hready, Session.attend]
      cases s.queue <;> rfl
    · rw [if_neg hready, if_neg hready]
      rfl

theorem stepped_waiting_cons {m : Message} {rest : List Message} (h : w.sessions[i]? = some s)
    (hp : s.phase = .waiting) (hc : s.isClosed = false) (hq : s.queue = m :: rest) :
    stepped b p i w = w.onSession i fun s => s.taking m rest := by
  have hready : w.isStreamReady i s = true := by simp [isStreamReady, hq]
  rw [stepped_waiting b p h hp, hc, hready, hq]
  rfl

theorem stepped_waiting_fed (h : w.sessions[i]? = some s) (hp : s.phase = .waiting)
    (hc : s.isClosed = false) (hq : s.queue = []) (hf : w.isFed i = true) :
    stepped b p i w = w := by
  have hready : w.isStreamReady i s = false := by simp [isStreamReady, hq, hf]
  rw [stepped_waiting b p h hp, hc, hready]
  rfl

theorem stepped_waiting_unfed (h : w.sessions[i]? = some s) (hp : s.phase = .waiting)
    (hc : s.isClosed = false) (hq : s.queue = []) (hf : w.isFed i = false) :
    stepped b p i w = w.onSession i Session.ended := by
  have hready : w.isStreamReady i s = true := by simp [isStreamReady, hf]
  rw [stepped_waiting b p h hp, hc, hready, hq]
  rfl

end

end CommandBot.Network

namespace CommandBot.ClientBuilder

variable {ι σ : Type}

/-- A client that has a gateway and a token has what comes of connecting to it. -/
theorem value_enter (c : ClientBuilder ι) (token : String) (g : GatewayId) (gw : Gateway)
    (w : Network ι σ) :
    (c.enter token g gw w).value =
      match (gw.connect g w.sessions.length token).value with
      | (.error f, gw') => (.error f, w.onGateway g fun _ => gw')
      | (.ok stream, gw') =>
        (.ok w.sessions.length,
          { w.onGateway g fun _ => gw' with sessions := w.sessions ++ [c.session gw stream] }) := by
  rw [enter, Logged.value_bind, Logged.value_bind]
  generalize (gw.connect g w.sessions.length token).value = answer
  obtain ⟨outcome, gw'⟩ := answer
  cases outcome <;> rfl

/-- With a token and a gateway that is there a client enters. -/
theorem value_login (c : ClientBuilder ι) (w : Network ι σ) {token : String} {g : GatewayId}
    {gw : Gateway} (ht : c.token = some token) (hc : c.gateway = some g)
    (hg : w.gateways[g]? = some gw) : (c.login w).value = (c.enter token g gw w).value := by
  simp only [login, ht, bind, StateT.bind, get, getThe, MonadStateOf.get, StateT.get, pure, hc,
    Option.bind, hg, Option.map]

theorem value_login_of_unknown (c : ClientBuilder ι) (w : Network ι σ) {token : String}
    {g : GatewayId} (ht : c.token = some token) (hc : c.gateway = some g)
    (hg : w.gateways[g]? = none) : (c.login w).value = (.error .noGateway, w) := by
  simp only [login, ht, bind, StateT.bind, get, getThe, MonadStateOf.get, StateT.get, pure, hc,
    Option.bind, hg, Option.map]
  rfl

/-- A login through a loopback gateway opens the next session and has the gateway feed it. -/
theorem value_login_loopback (c : ClientBuilder ι) (w : Network ι σ) {token : String}
    {g : GatewayId} {gw : Gateway} (ht : c.token = some token) (hc : c.gateway = some g)
    (hg : w.gateways[g]? = some gw) (hm : gw.manner = .loopback) :
    (c.login w).value =
      (.ok w.sessions.length,
        { w.onGateway g fun _ =>
            { gw with inbound := some w.sessions.length, token := some token } with
          sessions := w.sessions ++ [c.session gw {}] }) := by
  rw [value_login c w ht hc hg, value_enter, Gateway.connect, hm]
  rfl

end CommandBot.ClientBuilder
