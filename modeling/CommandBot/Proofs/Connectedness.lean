import CommandBot.Proofs.LaterActs

/-
  Loopback gateways, by what happened on their network. Whether such a gateway is connected is asked
  in one place and tried in another: `isConnected` looks at the session that is fed, `inject` gives
  it a message. `FeedsLatest` says that both go by the history: fed is the session that was opened
  last, until the gateway disconnects or the task of the session has ended.
-/

namespace CommandBot

variable {ι σ : Type}

open History

namespace Course

/-- How a loopback gateway stands to the sessions that it opened. -/
structure FeedsLatest (b : Behavior ι σ) (c : Course ι σ) (g : GatewayId) (gw : Gateway) :
    Prop where
  /-- a message is accepted exactly where the gateway is connected, and else nothing happens -/
  accepts : c.network.isConnected g = true → ∀ m, (c.network.inject g m).1 = .ok ()
  refuses : c.network.isConnected g = false →
    ∀ m, c.network.inject g m = (.error .closed, c.network)
  /-- an accepted message goes to the end of the queue of the session opened last, and only there -/
  appends : c.network.isConnected g = true → ∃ i token s, latest? g c.history = some (i, token) ∧
    c.network.sessions[i]? = some s ∧ ∀ m, (c.network.inject g m).2 =
      c.network.onSession i fun s => { s with queue := s.queue ++ [m] }
  connected_iff : c.network.isConnected g = true ↔
    ∃ i, fed? g c.history = some i ∧ (ledger i c.history).hasEnded = false
  /-- a gateway that was disconnected is not connected until it connects a session again -/
  disconnected : ∀ o h, c.history = o ++ .disconnected g :: h → (∀ x ∈ o, ¬ x.IsConnectOf g) →
    c.network.isConnected g = false
  /-- a login leaves every session that is there as it is -/
  keeps : ∀ (client : ClientBuilder ι) (i : SessionId) s, c.network.sessions[i]? = some s →
    (c.login client).network.sessions[i]? = some s
  /-- no more messages come to a session that was replaced, and those that came are not lost -/
  replaced : ∀ i s, c.network.sessions[i]? = some s → opener? i c.history = some g →
    (latest? g c.history).map Prod.fst ≠ some i → ∀ more,
      (ledger i (c.run b more).history).accepted = (ledger i c.history).accepted ∧
      ∀ s', (c.run b more).network.sessions[i]? = some s' → s'.phase ≠ .ended →
        (ledger i (c.run b more).history).accepted =
          (ledger i (c.run b more).history).taken ++ s'.queue
  /-- a session whose task has ended does not count as connected, and gets no more messages -/
  ended : ∀ i s, c.network.sessions[i]? = some s → s.phase = .ended → ∀ more,
    (c.network.inboundOf g = some i → c.network.isConnected g = false) ∧
      (ledger i (c.run b more).history).accepted = (ledger i c.history).accepted
  token_eq : gw.token = (latest? g c.history).map Prod.snd

/-- A login leaves every session that is there as it is. -/
theorem session_login (c : Course ι σ) (client : ClientBuilder ι) {i : SessionId} {s : Session ι}
    (hs : c.network.sessions[i]? = some s) : (c.login client).network.sessions[i]? = some s := by
  have hstep := loggedIn client c
  generalize c.login client = c' at hstep ⊢
  cases hstep with
  | failed => exact hs
  | opened hgw hopens =>
    have hi : i < c.network.sessions.length := (List.getElem?_eq_some_iff.mp hs).1
    exact (List.getElem?_append_left hi).trans hs

namespace Sound

variable {c : Course ι σ} {g : GatewayId} {gw : Gateway}

/-- A loopback gateway is connected exactly where it feeds a session that has not ended. -/
theorem isConnected_iff (h : c.Sound) (hgw : c.network.gateways[g]? = some gw)
    (hm : gw.manner = .loopback) : c.network.isConnected g = true ↔
      ∃ i, fed? g c.history = some i ∧ (ledger i c.history).hasEnded = false := by
  have hin : c.network.inboundOf g = fed? g c.history := by
    rw [Network.inboundOf, hgw, Option.bind_some, (h.gateway hgw).inbound_eq hm]
  rw [Network.isConnected, hin, Option.any_eq_true]
  refine exists_congr fun i => and_congr_right fun hfed => ?_
  rw [c.network.takesMessages_eq_true_iff]
  constructor
  · rintro ⟨s, hs, hopen⟩
    exact (h.session hs).not_ended hopen
  · intro hopen
    obtain ⟨p, hp, hpi⟩ := Option.map_eq_some_iff.mp (latest?_of_fed? hfed)
    have hi : i < c.network.sessions.length := by
      rw [← hpi]
      exact (h.latest hp).1
    refine ⟨_, List.getElem?_eq_getElem hi, fun hended => ?_⟩
    have := (h.session (List.getElem?_eq_getElem hi)).ended_iff.mpr hended
    exact Bool.false_ne_true (hopen.symm.trans this)

/-- An accepted message goes to the session that the gateway opened last. -/
theorem exists_latest_of_isConnected (h : c.Sound) (hg : c.network.isConnected g = true) :
    ∃ i token s, latest? g c.history = some (i, token) ∧ c.network.sessions[i]? = some s ∧
      ∀ m, c.network.inject g m =
        (.ok (), c.network.onSession i fun s => { s with queue := s.queue ++ [m] }) := by
  obtain ⟨i, hin, htakes⟩ := (Option.any_eq_true _ _).mp hg
  obtain ⟨⟨j, token⟩, hlatest, rfl⟩ := Option.map_eq_some_iff.mp (h.latest?_of_inboundOf hin)
  obtain ⟨s, hs, -⟩ := (c.network.takesMessages_eq_true_iff j).mp htakes
  refine ⟨j, token, s, hlatest, hs, fun m => ?_⟩
  obtain ⟨k, hk, -, hinject⟩ := Network.inject_of_isConnected hg m
  rw [hin] at hk
  cases hk
  exact hinject

/-- Nothing is accepted any more for a session that was replaced. -/
theorem accepted_run_of_replaced (h : c.Sound) {i : SessionId}
    (hi : i < c.network.sessions.length) (hopener : opener? i c.history = some g)
    (hlatest : (latest? g c.history).map Prod.fst ≠ some i) (b : Behavior ι σ)
    (more : List (NetworkAct ι)) :
    (ledger i (c.run b more).history).accepted = (ledger i c.history).accepted := by
  obtain ⟨o, ho, hnew⟩ := (h.leads_run b more).history_eq
  have hnone : ∀ g', (latest? g' c.history).map Prod.fst ≠ some i := by
    intro g' hg'
    obtain ⟨⟨j, token⟩, hj, rfl⟩ := Option.map_eq_some_iff.mp hg'
    -- a session has one opener, so its gateway is the one that it is not the latest of
    have hgg : g' = g := Option.some.inj ((h.latest hj).2.symm.trans hopener)
    exact hlatest (hgg ▸ hg')
  rw [ho]
  exact ledger_append (P := fun r => r.accepted = (ledger i c.history).accepted) (hnew i hi)
    (fun g' hg' => absurd hg' (hnone g')) (fun r e hr => by cases e <;> exact hr) rfl

end Sound

/-- On a network of fresh gateways, whoever logs in, whatever comes in, whoever shuts down or
disconnects, and whenever the tasks take their steps, a loopback gateway goes by its history. -/
theorem feedsLatest_run (gateways : List (String × Manner)) (memory : σ) (b : Behavior ι σ)
    (acts : List (NetworkAct ι)) {g : GatewayId} {gw : Gateway}
    (hgw : ((start gateways memory).run b acts).network.gateways[g]? = some gw)
    (hm : gw.manner = .loopback) :
    ((start gateways memory).run b acts).FeedsLatest b g gw := by
  have h := sound_run gateways memory b acts
  generalize (start gateways memory).run b acts = c at hgw h ⊢
  constructor
  · intro hg m
    obtain ⟨_, _, _, -, -, hinject⟩ := h.exists_latest_of_isConnected hg
    rw [hinject m]
  · exact fun hg m => Network.inject_of_not_isConnected hg m
  · intro hg
    obtain ⟨i, token, s, hlatest, hs, hinject⟩ := h.exists_latest_of_isConnected hg
    exact ⟨i, token, s, hlatest, hs, fun m => congrArg Prod.snd (hinject m)⟩
  · exact h.isConnected_iff hgw hm
  · intro o h' ho hnew
    have hfed : fed? g c.history = none := by
      rw [ho]
      exact fed?_append_eq_none hnew (if_pos rfl)
    rw [Bool.eq_false_iff]
    intro hg
    obtain ⟨i, hi, -⟩ := (h.isConnected_iff hgw hm).mp hg
    exact Option.some_ne_none i (hi.symm.trans hfed)
  · exact fun client i s hs => c.session_login client hs
  · intro i s hs hopener hlatest more
    have hi : i < c.network.sessions.length := (List.getElem?_eq_some_iff.mp hs).1
    refine ⟨h.accepted_run_of_replaced hi hopener hlatest b more, fun s' hs' hopen => ?_⟩
    have hagrees := (h.run b more).session hs'
    exact hagrees.accepted_eq (.inl (hagrees.not_ended hopen))
  · intro i s hs hp more
    have hi : i < c.network.sessions.length := (List.getElem?_eq_some_iff.mp hs).1
    refine ⟨fun hin => ?_, ?_⟩
    · rw [Network.isConnected, hin, Option.any_some, Bool.eq_false_iff]
      intro htakes
      obtain ⟨s', hs', hopen⟩ := (c.network.takesMessages_eq_true_iff i).mp htakes
      rw [hs] at hs'
      cases hs'
      exact hopen hp
    · exact ((h.leads_run b more).closes i hi ((h.session hs).ended_iff.mpr hp)).accepted_eq
  · exact (h.gateway hgw).token_eq hm

/-- A gateway connects a second session while a message waits in the first. -/
def reconnecting : List (NetworkAct Unit) :=
  [.login { token := some "first", gateway := some 0 },
    .deed (.inject 0 { content := "a", channel := ⟨"general", none⟩ }),
    .login { token := some "second", gateway := some 0 }]

theorem feedsLatest_run_reconnecting :
    let c := (start [("loopback", .loopback)] ()).run .idle reconnecting
    ∃ gw, c.network.gateways[0]? = some gw ∧ gw.manner = .loopback ∧ gw.token = some "second" ∧
      latest? 0 c.history = some (1, "second") ∧
      ∀ more, (ledger 0 (c.run .idle more).history).accepted =
        [{ content := "a", channel := ⟨"general", none⟩ }] := by
  refine ⟨_, rfl, rfl, rfl, rfl, fun more => ?_⟩
  have hfeeds := feedsLatest_run [("loopback", .loopback)] () .idle reconnecting (g := 0) rfl rfl
  exact (hfeeds.replaced 0 _ rfl rfl nofun more).1

end Course

end CommandBot
