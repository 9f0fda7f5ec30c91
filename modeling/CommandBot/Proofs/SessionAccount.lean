import CommandBot.Proofs.NetworkHistory

/-
  Sessions and gateways keep to their history. In every course that starts with fresh gateways
  (`sound_run`) a session has the listeners that its ledger says, has the messages in its queue that
  were accepted and not taken, and has still to make the calls that are owed and were not made; and
  a loopback gateway feeds the session that it opened last.
-/

namespace CommandBot

variable {ι σ : Type}

open History

/-! ## One session -/

namespace Session

/-- The calls still to be made with the message at hand. -/
def dueCalls (s : Session ι) : List (Message × ι) :=
  match s.phase with
  | .handling m left => left.map (m, ·)
  | _ => []

/-- A session is as its ledger says. What a shutdown cuts off is not in the queue any more. -/
structure Agrees (s : Session ι) (r : Ledger ι) : Prop where
  listeners_eq : s.listeners = r.listeners
  owed_eq : r.owed = r.calls ++ s.dueCalls
  ended_iff : r.hasEnded = true ↔ s.phase = .ended
  closed_iff : s.isClosed = true ↔ r.isShutDown = true ∨ r.hasEnded = true
  accepted_eq : r.hasEnded = false ∨ r.isShutDown = false → r.accepted = r.taken ++ s.queue
  queue_eq : r.hasEnded = true → s.queue = []

namespace Agrees

variable {s : Session ι} {r : Ledger ι}

theorem not_ended (h : s.Agrees r) (hp : s.phase ≠ .ended) : r.hasEnded = false := by
  cases hr : r.hasEnded with
  | false => rfl
  | true => exact absurd (h.ended_iff.mp hr) hp

theorem accept (h : s.Agrees r) (hp : s.phase ≠ .ended) (m : Message) :
    Agrees { s with queue := s.queue ++ [m] } (r.accept m) where
  listeners_eq := h.listeners_eq
  owed_eq := h.owed_eq
  ended_iff := h.ended_iff
  closed_iff := h.closed_iff
  accepted_eq hopen := by
    show r.accepted ++ [m] = r.taken ++ (s.queue ++ [m])
    rw [h.accepted_eq hopen, List.append_assoc]
  queue_eq hended := absurd (h.ended_iff.mp hended) hp

theorem registered (h : s.Agrees r) (l : ι) :
    Agrees { s with listeners := s.listeners ++ [l] } (r.add (.registered l)) where
  listeners_eq := congrArg (· ++ [l]) h.listeners_eq
  owed_eq := h.owed_eq
  ended_iff := h.ended_iff
  closed_iff := h.closed_iff
  accepted_eq := h.accepted_eq
  queue_eq := h.queue_eq

theorem shutDown (h : s.Agrees r) : Agrees { s with isClosed := true } (r.add .shutDown) where
  listeners_eq := h.listeners_eq
  owed_eq := h.owed_eq
  ended_iff := h.ended_iff
  closed_iff := iff_of_true rfl (.inl rfl)
  accepted_eq hopen := by
    rcases hopen with hopen | hopen
    · exact h.accepted_eq (.inl hopen)
    · cases hopen
  queue_eq := h.queue_eq

theorem took {m : Message} {rest : List Message} (h : s.Agrees r) (hp : s.phase = .waiting)
    (hq : s.queue = m :: rest) : (s.taking m rest).Agrees (r.add (.took m)) := by
  have hopen : r.hasEnded = false := h.not_ended (by rw [hp]; nofun)
  refine ⟨h.listeners_eq, ?_, ?_, h.closed_iff, fun _ => ?_, fun hended => ?_⟩
  · have howed : r.owed = r.calls := by
      have := h.owed_eq
      rwa [dueCalls, hp, List.append_nil] at this
    show r.owed ++ r.listeners.map (m, ·) = r.calls ++ s.listeners.map (m, ·)
    rw [howed, h.listeners_eq]
  · exact iff_of_false (fun hended => absurd (hopen.symm.trans hended) nofun) nofun
  · show r.accepted = (r.taken ++ [m]) ++ rest
    rw [h.accepted_eq (.inl hopen), hq, List.append_assoc]
    rfl
  · exact absurd (hopen.symm.trans hended) nofun

theorem called {m : Message} {l : ι} {left : List ι} (h : s.Agrees r)
    (hp : s.phase = .handling m (l :: left)) :
    Agrees { s with phase := .handling m left } (r.add (.called m l)) := by
  have hopen : r.hasEnded = false := h.not_ended (by rw [hp]; nofun)
  refine ⟨h.listeners_eq, ?_, ?_, h.closed_iff, h.accepted_eq, h.queue_eq⟩
  · have howed := h.owed_eq
    rw [dueCalls, hp] at howed
    show r.owed = (r.calls ++ [(m, l)]) ++ left.map (m, ·)
    rw [howed, List.append_assoc]
    rfl
  · exact iff_of_false (fun hended => absurd (hopen.symm.trans hended) nofun) nofun

theorem finished {m : Message} (h : s.Agrees r) (hp : s.phase = .handling m []) :
    Agrees { s with phase := .waiting } r := by
  have hopen : r.hasEnded = false := h.not_ended (by rw [hp]; nofun)
  refine ⟨h.listeners_eq, ?_, ?_, h.closed_iff, h.accepted_eq, h.queue_eq⟩
  · have howed := h.owed_eq
    rwa [dueCalls, hp] at howed
  · exact iff_of_false (by rw [hopen]; nofun) nofun

/-- A task that was not told to shut down ends with an empty queue. -/
theorem ended (h : s.Agrees r) (hp : s.phase = .waiting)
    (hend : s.isClosed = true ∨ s.queue = []) : s.ended.Agrees (r.add .ended) := by
  have hopen : r.hasEnded = false := h.not_ended (by rw [hp]; nofun)
  refine ⟨h.listeners_eq, ?_, iff_of_true rfl rfl, iff_of_true rfl (.inr rfl), fun hcut => ?_,
    fun _ => rfl⟩
  · have howed := h.owed_eq
    rwa [dueCalls, hp] at howed
  · have hkept : r.isShutDown = false := by
      rcases hcut with hcut | hcut
      · cases hcut
      · exact hcut
    have hempty : s.queue = [] := by
      rcases hend with hclosed | hempty
      · rcases h.closed_iff.mp hclosed with hshut | hended
        · exact absurd (hkept.symm.trans hshut) nofun
        · exact absurd (hopen.symm.trans hended) nofun
      · exact hempty
    have haccepted := h.accepted_eq (.inl hopen)
    rwa [hempty] at haccepted

end Agrees

end Session

/-- A new session agrees with a ledger that holds nothing but what it was opened with. -/
theorem ClientBuilder.agrees_session (client : ClientBuilder ι) (gw : Gateway) (stream : Stream) :
    (client.session gw stream).Agrees
      { accepted := stream.queue, listeners := client.listeners } where
  listeners_eq := rfl
  owed_eq := rfl
  ended_iff := iff_of_false nofun nofun
  closed_iff := iff_of_false nofun (by rintro (h | h) <;> cases h)
  accepted_eq _ := rfl
  queue_eq := nofun

/-! ## One gateway -/

/-- A gateway is as the history says: only a loopback gateway feeds a session, and knows a token. -/
structure Gateway.Agrees (g : GatewayId) (gw : Gateway) (h : History ι) : Prop where
  inbound_eq : gw.manner = .loopback → gw.inbound = fed? g h
  token_eq : gw.manner = .loopback → gw.token = (latest? g h).map Prod.snd
  inbound_none : gw.manner ≠ .loopback → gw.inbound = none

/-! ## Courses -/

namespace Course

/-- Sessions and gateways are as the history says, and no two gateways opened the same session. -/
structure Sound (c : Course ι σ) : Prop where
  session : ∀ {i : SessionId} {s : Session ι}, c.network.sessions[i]? = some s →
    s.Agrees (ledger i c.history)
  gateway : ∀ {g : GatewayId} {gw : Gateway}, c.network.gateways[g]? = some gw →
    gw.Agrees g c.history
  latest : ∀ {g : GatewayId} {i : SessionId} {token : String},
    latest? g c.history = some (i, token) →
      i < c.network.sessions.length ∧ opener? i c.history = some g

theorem sound_start (gateways : List (String × Manner)) (memory : σ) :
    (start gateways memory : Course ι σ).Sound where
  session h := by
    simp [start] at h
  gateway {g gw} h := by
    obtain ⟨p, -, rfl⟩ : ∃ p, gateways[g]? = some p ∧
        ({ name := p.1, manner := p.2 } : Gateway) = gw := by
      simpa [start] using h
    exact ⟨fun _ => rfl, fun _ => rfl, fun _ => rfl⟩
  latest h := nomatch h

namespace Sound

variable {c : Course ι σ}

/-- A gateway feeds the session that it opened last. -/
theorem latest?_of_inboundOf (h : c.Sound) {g : GatewayId} {i : SessionId}
    (hin : c.network.inboundOf g = some i) : (latest? g c.history).map Prod.fst = some i := by
  rw [Network.inboundOf, Option.bind_eq_some_iff] at hin
  obtain ⟨gw, hgw, hinbound⟩ := hin
  by_cases hm : gw.manner = .loopback
  · rw [(h.gateway hgw).inbound_eq hm] at hinbound
    exact latest?_of_fed? hinbound
  · rw [(h.gateway hgw).inbound_none hm] at hinbound
    cases hinbound

/-- What is remembered is no part of the history. -/
theorem remember (h : c.Sound) (memory : σ) :
    Sound ⟨{ c.network with memory }, c.history⟩ :=
  ⟨h.session, h.gateway, h.latest⟩

/-- A change of one session that goes with what the history says of it. -/
theorem onSession (h : c.Sound) {i : SessionId} {f : Session ι → Session ι} {o : History ι}
    (hlatest : ∀ g, latest? g (o ++ c.history) = latest? g c.history)
    (hfed : ∀ g, fed? g (o ++ c.history) = fed? g c.history)
    (hopener : ∀ j, opener? j (o ++ c.history) = opener? j c.history)
    (hothers : ∀ j, j ≠ i → ledger j (o ++ c.history) = ledger j c.history)
    (hself : ∀ s, c.network.sessions[i]? = some s → s.Agrees (ledger i c.history) →
      (f s).Agrees (ledger i (o ++ c.history))) :
    Sound ⟨c.network.onSession i f, o ++ c.history⟩ where
  session {j s} hs := by
    by_cases hj : j = i
    · subst hj
      rw [Network.session_onSession, Option.map_eq_some_iff] at hs
      obtain ⟨s', hs', rfl⟩ := hs
      exact hself s' hs' (h.session hs')
    · rw [Network.session_onSession_of_ne _ hj] at hs
      rw [hothers j hj]
      exact h.session hs
  gateway {g gw} hgw := by
    have := h.gateway hgw
    exact ⟨fun hm => (this.inbound_eq hm).trans (hfed g).symm,
      fun hm => (this.token_eq hm).trans (by rw [hlatest]), this.inbound_none⟩
  latest {g j token} hg := by
    rw [hlatest] at hg
    rw [hopener, Network.length_sessions_onSession]
    exact h.latest hg

/-- Something that happens to one session. -/
theorem inSession (h : c.Sound) {i : SessionId} {f : Session ι → Session ι} {e : SessionEvent ι}
    (hself : ∀ s, c.network.sessions[i]? = some s → s.Agrees (ledger i c.history) →
      (f s).Agrees ((ledger i c.history).add e)) :
    Sound ⟨c.network.onSession i f, .inSession i e :: c.history⟩ := by
  refine h.onSession (o := [.inSession i e]) (fun _ => rfl) (fun _ => rfl) (fun _ => rfl) ?_ ?_
  · intro j hj
    exact if_neg (Ne.symm hj)
  · intro s hs hagrees
    have hledger : ledger i ([.inSession i e] ++ c.history) = (ledger i c.history).add e :=
      if_pos rfl
    rw [hledger]
    exact hself s hs hagrees

/-- A change of one gateway that goes with what the history says of it. -/
theorem onGateway (h : c.Sound) {g : GatewayId} {f : Gateway → Gateway} {o : History ι}
    (hlatest : ∀ g, latest? g (o ++ c.history) = latest? g c.history)
    (hopener : ∀ j, opener? j (o ++ c.history) = opener? j c.history)
    (hledger : ∀ j, ledger j (o ++ c.history) = ledger j c.history)
    (hothers : ∀ g', g' ≠ g → fed? g' (o ++ c.history) = fed? g' c.history)
    (hself : ∀ gw, c.network.gateways[g]? = some gw → gw.Agrees g c.history →
      (f gw).Agrees g (o ++ c.history)) :
    Sound ⟨c.network.onGateway g f, o ++ c.history⟩ where
  session {j s} hs := by
    rw [hledger]
    exact h.session hs
  gateway {g' gw} hgw := by
    by_cases hg : g' = g
    · subst hg
      rw [Network.gateway_onGateway, Option.map_eq_some_iff] at hgw
      obtain ⟨gw', hgw', rfl⟩ := hgw
      exact hself gw' hgw' (h.gateway hgw')
    · rw [Network.gateway_onGateway_of_ne _ hg] at hgw
      have := h.gateway hgw
      exact ⟨fun hm => (this.inbound_eq hm).trans (hothers g' hg).symm,
        fun hm => (this.token_eq hm).trans (by rw [hlatest]), this.inbound_none⟩
  latest {g' j token} hg := by
    rw [hlatest] at hg
    rw [hopener]
    exact h.latest hg

/-! ### Deeds -/

theorem inject (h : c.Sound) (g : GatewayId) (m : Message) : (c.deed (.inject g m)).Sound := by
  cases hg : c.network.isConnected g with
  | false =>
    rw [deed_inject_of_not_isConnected hg]
    exact ⟨h.session, fun hgw => ⟨(h.gateway hgw).inbound_eq, (h.gateway hgw).token_eq,
      (h.gateway hgw).inbound_none⟩, h.latest⟩
  | true =>
    obtain ⟨i, hin, htakes, hdeed⟩ := deed_inject_of_isConnected hg m
    have hlatest := h.latest?_of_inboundOf hin
    rw [hdeed]
    refine h.onSession (o := [.accepted g m]) (fun _ => rfl) (fun _ => rfl) (fun _ => rfl) ?_ ?_
    · intro j hj
      refine if_neg fun hother => hj ?_
      exact Option.some.inj (Eq.trans (Eq.symm hother) hlatest)
    · intro s hs hagrees
      have hledger : ledger i ([.accepted g m] ++ c.history) = (ledger i c.history).accept m :=
        if_pos hlatest
      obtain ⟨s', hs', hopen⟩ := (c.network.takesMessages_eq_true_iff i).mp htakes
      have hsame : s' = s := Option.some.inj (hs'.symm.trans hs)
      rw [hsame] at hopen
      rw [hledger]
      exact hagrees.accept hopen m

theorem send (h : c.Sound) (channel : Channel) (content : String) :
    (c.deed (.send channel content)).Sound := by
  show Sound ⟨(c.network.send channel content).2, c.history⟩
  unfold Network.send
  split
  · exact h
  · refine h.onGateway (o := []) (fun _ => rfl) (fun _ => rfl) (fun _ => rfl) (fun _ _ => rfl) ?_
    intro gw _ hagrees
    exact ⟨hagrees.inbound_eq, hagrees.token_eq, hagrees.inbound_none⟩

theorem disconnect (h : c.Sound) (g : GatewayId) : (c.deed (.disconnect g)).Sound := by
  have hothers : ∀ g', g' ≠ g →
      fed? g' ((.disconnected g : Occurrence ι) :: c.history) = fed? g' c.history :=
    fun g' hg => if_neg (Ne.symm hg)
  have hself : fed? g ((.disconnected g : Occurrence ι) :: c.history) = none := if_pos rfl
  have hagrees : ∀ gw : Gateway, gw.Agrees g c.history →
      Gateway.Agrees g { gw with inbound := none } (.disconnected g :: c.history) := fun gw hgw =>
    ⟨fun _ => hself.symm, hgw.token_eq, fun _ => rfl⟩
  show Sound ⟨(c.network.disconnect g).value, .disconnected g :: c.history⟩
  unfold Network.disconnect
  split
  · rename_i hin
    refine ⟨h.session, fun {g' gw} hgw => ?_, h.latest⟩
    by_cases hg : g' = g
    · subst hg
      -- a gateway that feeds nothing is as one that was disconnected
      have hgw : c.network.gateways[g']? = some gw := hgw
      have hinbound : gw.inbound = none := by
        rwa [Network.inboundOf, hgw] at hin
      have := hagrees gw (h.gateway hgw)
      rwa [← hinbound] at this
    · have := h.gateway hgw
      exact ⟨fun hm => (this.inbound_eq hm).trans (hothers g' hg).symm, this.token_eq,
        this.inbound_none⟩
  · exact h.onGateway (o := [.disconnected g]) (fun _ => rfl) (fun _ => rfl) (fun _ => rfl) hothers
      fun gw _ => hagrees gw

theorem deed (h : c.Sound) (d : Deed ι) : (c.deed d).Sound := by
  cases d with
  | send channel content => exact h.send channel content
  | log e => exact h
  | inject g m => exact h.inject g m
  | listen i l => exact h.inSession fun s _ hagrees => hagrees.registered l
  | shutdown i => exact h.inSession fun s _ hagrees => hagrees.shutDown
  | disconnect g => exact h.disconnect g

theorem deeds (h : c.Sound) (ds : List (Deed ι)) : (c.deeds ds).Sound := by
  induction ds generalizing c with
  | nil => exact h
  | cons d ds ih => exact ih (h.deed d)

/-! ### Logins -/

/-- The gateway that opened a session feeds it, if it feeds sessions at all. -/
theorem agrees_of_opens {g : GatewayId} {gw gw' : Gateway} {i : SessionId} {token : String}
    {stream : Stream} {listeners : List ι} {h : History ι} (hagrees : gw.Agrees g h)
    (hopens : gw.Opens i token stream gw') :
    gw'.Agrees g (.connected g i token listeners stream.queue :: h) := by
  have hfed : fed? g (.connected g i token listeners stream.queue :: h) = some i := if_pos rfl
  have hlatest : latest? g (.connected g i token listeners stream.queue :: h) = some (i, token) :=
    if_pos rfl
  cases hopens with
  | loopback hm =>
    exact ⟨fun _ => hfed.symm, fun _ => by rw [hlatest]; rfl, fun hm' => absurd hm hm'⟩
  | backlog hm => exact ⟨fun hm' => absurd hm' hm, fun hm' => absurd hm' hm, hagrees.inbound_none⟩

theorem login (h : c.Sound) (client : ClientBuilder ι) : (c.login client).Sound := by
  have hstep := loggedIn client c
  generalize c.login client = c' at hstep ⊢
  cases hstep with
  | failed => exact h
  | @opened g gw gw' token stream hgw hopens =>
    constructor
    · intro j s hs
      by_cases hj : j = c.network.sessions.length
      · subst hj
        have hnew : s = client.session gw stream := by
          rw [List.getElem?_concat_length] at hs
          exact (Option.some.inj hs).symm
        rw [hnew, ledger, if_pos rfl]
        exact client.agrees_session gw stream
      · have hlt : j < c.network.sessions.length := by
          have hle := (List.getElem?_eq_some_iff.mp hs).1
          rw [List.length_append, List.length_singleton] at hle
          exact Nat.lt_of_le_of_ne (Nat.le_of_lt_succ hle) hj
        rw [List.getElem?_append_left hlt] at hs
        rw [ledger, if_neg (Ne.symm hj)]
        exact h.session hs
    · intro g' gw'' hgw''
      by_cases hg : g' = g
      · subst hg
        have hnew : gw'' = gw' := by
          have hview := c.network.gateway_onGateway g' fun _ => gw'
          rw [hgw] at hview
          exact Option.some.inj (hgw''.symm.trans hview)
        rw [hnew]
        exact agrees_of_opens (h.gateway hgw) hopens
      · have hold : c.network.gateways[g']? = some gw'' := by
          rw [← Network.gateway_onGateway_of_ne c.network hg fun _ => gw']
          exact hgw''
        have hagrees := h.gateway hold
        refine ⟨fun hm => ?_, fun hm => ?_, hagrees.inbound_none⟩
        · rw [hagrees.inbound_eq hm, fed?, if_neg (Ne.symm hg)]
        · rw [hagrees.token_eq hm, latest?, if_neg (Ne.symm hg)]
    · intro g' i token' hlatest
      have hlength : c.network.sessions.length <
          (c.network.sessions ++ [client.session gw stream]).length := by
        rw [List.length_append, List.length_singleton]
        exact Nat.lt_succ_self _
      rw [latest?] at hlatest
      split at hlatest
      · rename_i hg
        cases hlatest
        exact ⟨hlength, by rw [opener?, if_pos rfl, hg]⟩
      · obtain ⟨hlt, hopener⟩ := h.latest hlatest
        refine ⟨Nat.lt_trans hlt hlength, ?_⟩
        rw [opener?, if_neg (Nat.ne_of_gt hlt)]
        exact hopener

/-! ### Steps of a task -/

/-- Something that happens to a session that is known. -/
theorem atSession (h : c.Sound) {i : SessionId} {s : Session ι} {f : Session ι → Session ι}
    {e : SessionEvent ι} (hs : c.network.sessions[i]? = some s)
    (hself : s.Agrees (ledger i c.history) → (f s).Agrees ((ledger i c.history).add e)) :
    Sound ⟨c.network.onSession i f, .inSession i e :: c.history⟩ := by
  refine h.inSession fun s' hs' hagrees => ?_
  have hsame : s' = s := Option.some.inj (hs'.symm.trans hs)
  rw [hsame] at hagrees ⊢
  exact hself hagrees

theorem calling (h : c.Sound) (b : Behavior ι σ) {i : SessionId} {s : Session ι} {m : Message}
    {l : ι} {left : List ι} (hs : c.network.sessions[i]? = some s)
    (hp : s.phase = .handling m (l :: left)) : (c.calling b i m l left).Sound :=
  Sound.remember (c := ⟨_, _⟩) (h.atSession hs fun hagrees => hagrees.called hp) _

theorem pump (h : c.Sound) (b : Behavior ι σ) (p : Preference) (i : SessionId) :
    (c.pump b p i).Sound := by
  have hstep := pumped b p i c
  generalize c.pump b p i = c' at hstep ⊢
  cases hstep with
  | idle => exact h
  | called hs hp => exact (h.calling b hs hp).deeds _
  | @finished s m hs hp =>
    refine h.onSession (o := []) (fun _ => rfl) (fun _ => rfl) (fun _ => rfl) (fun _ _ => rfl) ?_
    intro s' hs' hagrees
    have hsame : s' = s := Option.some.inj (hs'.symm.trans hs)
    rw [hsame] at hagrees ⊢
    exact hagrees.finished hp
  | took hs hp hq hopen => exact h.atSession hs fun hagrees => hagrees.took hp hq
  | ended hs hp hend => exact h.atSession hs fun hagrees => hagrees.ended hp hend

/-! ### Runs -/

theorem act (h : c.Sound) (b : Behavior ι σ) (a : NetworkAct ι) : (c.act b a).Sound := by
  cases a with
  | login client => exact h.login client
  | deed d => exact h.deed d
  | pump p i => exact h.pump b p i

theorem run (h : c.Sound) (b : Behavior ι σ) (acts : List (NetworkAct ι)) :
    (c.run b acts).Sound := by
  induction acts generalizing c with
  | nil => exact h
  | cons a acts ih => exact ih (h.act b a)

end Sound

theorem sound_run (gateways : List (String × Manner)) (memory : σ) (b : Behavior ι σ)
    (acts : List (NetworkAct ι)) : ((start gateways memory).run b acts).Sound :=
  (sound_start gateways memory).run b acts

end Course

end CommandBot
