import CommandBot.Proofs.LaterActs

/-
  What a session that was shut down still hands over. Its task waits on two things at once, and
  where it could attend to either it may attend to the stream. So a shutdown does not by itself stop
  the delivery (`not_handsNoMore_of_isShutDown`). It stops at the first step in which the waiting
  task attends to the shutdown, and each message that is taken before that costs a step in which it
  attends to the stream (`stops_run`).
-/

namespace CommandBot

variable {ι σ : Type}

open History

/-- Whether the task of a session takes a step in which it attends to the stream if it can. -/
def NetworkAct.prefersStream (i : SessionId) : NetworkAct ι → Bool
  | .pump .stream j => j == i
  | _ => false

namespace Course

/-! ## Messages that are taken late -/

/-- Between two ledgers at most `n` messages were taken. -/
def TakesUpTo (n : Nat) (r r' : Ledger ι) : Prop :=
  ∃ late : List Message, r'.taken = r.taken ++ late ∧ late.length ≤ n ∧
    (late = [] → r'.owed = r.owed)

namespace TakesUpTo

variable {n k : Nat} {r r' r'' : Ledger ι}

theorem none (htaken : r'.taken = r.taken) (howed : r'.owed = r.owed) : TakesUpTo n r r' :=
  ⟨[], by rw [htaken, List.append_nil], Nat.zero_le _, fun _ => howed⟩

theorem trans (h : TakesUpTo n r r') (h' : TakesUpTo k r' r'') : TakesUpTo (n + k) r r'' := by
  obtain ⟨late, htaken, hlength, howed⟩ := h
  obtain ⟨late', htaken', hlength', howed'⟩ := h'
  refine ⟨late ++ late', by rw [htaken', htaken, List.append_assoc], ?_, fun hnone => ?_⟩
  · rw [List.length_append]
    exact Nat.add_le_add hlength hlength'
  · obtain ⟨hlate, hlate'⟩ := List.append_eq_nil_iff.mp hnone
    rw [howed' hlate', howed hlate]

end TakesUpTo

theorem takesUpTo_deeds (c : Course ι σ) (ds : List (Deed ι)) (i : SessionId) :
    TakesUpTo 0 (ledger i c.history) (ledger i (c.deeds ds).history) := by
  induction ds generalizing c with
  | nil => exact .none rfl rfl
  | cons d ds ih =>
    have hfirst : TakesUpTo 0 (ledger i c.history) (ledger i (c.deed d).history) := by
      have hdeed := c.deeded d i
      generalize ledger i (c.deed d).history = r' at hdeed ⊢
      cases hdeed <;> exact .none rfl rfl
    exact hfirst.trans (ih (c.deed d))

/-- What happens to another session, or is no taking. -/
theorem takesUpTo_inSession {i j : SessionId} {e : SessionEvent ι} {n : Nat} (h : History ι)
    (he : ∀ m, e = .took m → j ≠ i) :
    TakesUpTo n (ledger i h) (ledger i (.inSession j e :: h)) := by
  rw [ledger]
  split
  · cases e with
    | took m => exact absurd ‹_› (he m rfl)
    | registered l => exact .none rfl rfl
    | shutDown => exact .none rfl rfl
    | called m l => exact .none rfl rfl
    | ended => exact .none rfl rfl
  · exact .none rfl rfl

namespace Sound

variable {c : Course ι σ} {i : SessionId}

/-- A task that was told to shut down takes a message only if it prefers the stream, and then one. -/
theorem takesUpTo_pump (h : c.Sound) (hshut : (ledger i c.history).isShutDown = true)
    (b : Behavior ι σ) (p : Preference) (j : SessionId) :
    TakesUpTo (if (NetworkAct.pump p j : NetworkAct ι).prefersStream i then 1 else 0)
      (ledger i c.history) (ledger i (c.pump b p j).history) := by
  have hstep := pumped b p j c
  generalize c.pump b p j = c' at hstep ⊢
  cases hstep with
  | idle => exact .none rfl rfl
  | @called s m l left hs hp =>
    have hcalling : TakesUpTo 0 (ledger i c.history) (ledger i (c.calling b j m l left).history) :=
      takesUpTo_inSession _ (by simp)
    obtain ⟨late, htaken, hlength, howed⟩ := hcalling.trans (takesUpTo_deeds _ (b l m _).deeds i)
    exact ⟨late, htaken, Nat.le_trans hlength (Nat.zero_le _), howed⟩
  | finished hs hp => exact .none rfl rfl
  | @took s m rest hs hp hq hopen =>
    by_cases hj : j = i
    · subst hj
      have hclosed : s.isClosed = true := (h.session hs).closed_iff.mpr (.inl hshut)
      have hstream : p = .stream := hopen hclosed
      subst hstream
      refine ⟨[m], ?_, ?_, fun hnone => absurd hnone (List.cons_ne_nil _ _)⟩
      · rw [ledger, if_pos rfl]
        rfl
      · simp [NetworkAct.prefersStream]
    · exact takesUpTo_inSession _ fun _ _ => hj
  | ended hs hp hend => exact takesUpTo_inSession _ (by simp)

theorem takesUpTo_act (h : c.Sound) (hi : i < c.network.sessions.length)
    (hshut : (ledger i c.history).isShutDown = true) (b : Behavior ι σ) (a : NetworkAct ι) :
    TakesUpTo (if a.prefersStream i then 1 else 0) (ledger i c.history)
      (ledger i (c.act b a).history) := by
  cases a with
  | login client =>
    have hstep := loggedIn client c
    show TakesUpTo _ _ (ledger i (c.login client).history)
    generalize c.login client = c' at hstep ⊢
    cases hstep with
    | failed => exact .none rfl rfl
    | opened hgw hopens =>
      rw [ledger, if_neg (Nat.ne_of_gt hi)]
      exact .none rfl rfl
  | deed d => exact c.takesUpTo_deeds [d] i
  | pump p j => exact h.takesUpTo_pump hshut b p j

theorem takesUpTo_run (h : c.Sound) (hi : i < c.network.sessions.length)
    (hshut : (ledger i c.history).isShutDown = true) (b : Behavior ι σ)
    (more : List (NetworkAct ι)) :
    TakesUpTo (more.countP (NetworkAct.prefersStream i)) (ledger i c.history)
      (ledger i (c.run b more).history) := by
  induction more generalizing c with
  | nil => exact .none rfl rfl
  | cons a more ih =>
    have hlead := h.leads_act b a
    have hlater := ih (h.act b a) (Nat.lt_of_lt_of_le hi hlead.length_le)
      (hlead.isShutDown hi hshut)
    rw [List.countP_cons, Nat.add_comm]
    exact (h.takesUpTo_act hi hshut b a).trans hlater

/-- A waiting task that attends to a shutdown ends. -/
theorem hasEnded_pump (h : c.Sound) {s : Session ι} (hs : c.network.sessions[i]? = some s)
    (hp : s.phase = .waiting) (hshut : (ledger i c.history).isShutDown = true)
    (b : Behavior ι σ) : (ledger i (c.pump b .shutdown i).history).hasEnded = true := by
  have hclosed : s.isClosed = true := (h.session hs).closed_iff.mpr (.inl hshut)
  have hstep := Network.stepped_waiting b .shutdown hs hp
  have hprefers : (Preference.shutdown == Preference.stream) = false := rfl
  rw [hclosed, hprefers, Bool.and_false, Bool.not_false, Bool.and_self, if_pos rfl] at hstep
  have hphase : ∃ s', (c.pump b .shutdown i).network.sessions[i]? = some s' ∧
      s'.phase = .ended := by
    refine ⟨s.ended, ?_, rfl⟩
    show (c.network.stepped b .shutdown i).sessions[i]? = _
    rw [hstep, Network.session_onSession, hs]
    rfl
  obtain ⟨s', hs', hended⟩ := hphase
  exact ((h.pump b .shutdown i).session hs').ended_iff.mpr hended

end Sound

/-! ## How the delivery stops -/

/-- From now on, the task of a session makes no calls but those that it owes already. -/
def HandsNoMore (b : Behavior ι σ) (c : Course ι σ) (i : SessionId) : Prop :=
  ∀ more, (ledger i (c.run b more).history).calls <+: (ledger i c.history).owed

/-- How the delivery of a session stops that was shut down. -/
structure Stops (b : Behavior ι σ) (c : Course ι σ) (i : SessionId) (s : Session ι) : Prop where
  /-- each message that is taken late costs a step in which the task prefers the stream -/
  late : ∀ more, ∃ late, (ledger i (c.run b more).history).taken =
    (ledger i c.history).taken ++ late ∧ late.length ≤ more.countP (NetworkAct.prefersStream i)
  /-- without such a step only the message at hand is handled -/
  handled : ∀ more, more.countP (NetworkAct.prefersStream i) = 0 →
    (ledger i (c.run b more).history).taken = (ledger i c.history).taken ∧
      (ledger i (c.run b more).history).calls <+: (ledger i c.history).owed
  /-- a waiting task that attends to the shutdown ends -/
  ends : s.phase = .waiting → (ledger i (c.pump b .shutdown i).history).hasEnded = true
  /-- and then nothing is handed over any more -/
  ended : s.phase = .ended → c.HandsNoMore b i

/-- On a network of fresh gateways, whatever happens before and after a session is shut down. -/
theorem stops_run (gateways : List (String × Manner)) (memory : σ) (b : Behavior ι σ)
    (acts : List (NetworkAct ι)) {i : SessionId} {s : Session ι}
    (hs : ((start gateways memory).run b acts).network.sessions[i]? = some s)
    (hshut : (ledger i ((start gateways memory).run b acts).history).isShutDown = true) :
    ((start gateways memory).run b acts).Stops b i s := by
  have h := sound_run gateways memory b acts
  generalize (start gateways memory).run b acts = c at hs hshut h ⊢
  have hi : i < c.network.sessions.length := (List.getElem?_eq_some_iff.mp hs).1
  -- every call that was made is owed, also later
  have hmade : ∀ more, (ledger i (c.run b more).history).calls <+:
      (ledger i (c.run b more).history).owed := by
    intro more
    have hi' := Nat.lt_of_lt_of_le hi (h.leads_run b more).length_le
    rw [((h.run b more).session (List.getElem?_eq_getElem hi')).owed_eq]
    exact List.prefix_append _ _
  constructor
  · intro more
    obtain ⟨late, htaken, hlength, -⟩ := h.takesUpTo_run hi hshut b more
    exact ⟨late, htaken, hlength⟩
  · intro more hnone
    obtain ⟨late, htaken, hlength, howed⟩ := h.takesUpTo_run hi hshut b more
    have hlate : late = [] := List.eq_nil_of_length_eq_zero (by omega)
    refine ⟨by rw [htaken, hlate, List.append_nil], ?_⟩
    rw [← howed hlate]
    exact hmade more
  · exact fun hp => h.hasEnded_pump hs hp hshut b
  · intro hp more
    have hcloses := (h.leads_run b more).closes i hi ((h.session hs).ended_iff.mpr hp)
    rw [← hcloses.owed_eq]
    exact hmade more

/-- A session is shut down while a message waits in its queue. -/
def shutDownWaiting : List (NetworkAct Unit) :=
  [.login { token := some "t", gateway := some 0, listeners := [()] },
    .deed (.inject 0 { content := "a", channel := ⟨"general", none⟩ }), .deed (.shutdown 0)]

theorem stops_run_waiting :
    let c := (start [("loopback", .loopback)] ()).run .idle shutDownWaiting
    (c.network.sessions[0]?).map Session.phase = some .waiting ∧
      (ledger 0 c.history).isShutDown = true ∧
      (ledger 0 (c.pump .idle .shutdown 0).history).hasEnded = true := by
  refine ⟨rfl, rfl, ?_⟩
  have hstops := stops_run [("loopback", .loopback)] () .idle shutDownWaiting (i := 0) rfl rfl
  exact hstops.ends rfl

/-- The message that waits is handed over after the shutdown if the task attends to the stream. -/
theorem not_handsNoMore_of_isShutDown :
    ¬ ∀ (acts : List (NetworkAct Unit)) (i : SessionId),
      let c := (start [("loopback", .loopback)] ()).run .idle acts
      (ledger i c.history).isShutDown = true → c.HandsNoMore .idle i := by
  intro hall
  have hlength := (hall shutDownWaiting 0 rfl [.pump .stream 0, .pump .stream 0]).length_le
  -- one call is made, and none was owed
  exact absurd hlength (by decide)

end Course

end CommandBot
