import CommandBot.Proofs.SessionAccount

/-
  What later acts leave of what was. `Leads` says it of two courses, the second of which comes of
  the first: the history goes on, a new session gets a new number, and of a session that has ended
  the account is closed. `leads_run` says it of every run.
-/

namespace CommandBot

variable {ι σ : Type}

/-! ## Longer histories -/

namespace Occurrence

/-- Whether a session is opened. -/
def Opens (i : SessionId) : Occurrence ι → Prop
  | .connected _ j _ _ _ => j = i
  | _ => False

/-- Whether a gateway opens a session. -/
def IsConnectOf (g : GatewayId) : Occurrence ι → Prop
  | .connected g' _ _ _ _ => g' = g
  | _ => False

end Occurrence

namespace History

/-- A session that a gateway opened last later on, and that was not opened since, is the one that it
had opened last before. -/
theorem latest?_of_append {i : SessionId} {o h : History ι} (ho : ∀ x ∈ o, ¬ x.Opens i)
    {g : GatewayId} (hg : (latest? g (o ++ h)).map Prod.fst = some i) :
    (latest? g h).map Prod.fst = some i := by
  induction o with
  | nil => exact hg
  | cons x o ih =>
    have hold := ih fun y hy => ho y (List.mem_cons_of_mem _ hy)
    cases x with
    | connected g' j token ls ms =>
      have hj : j ≠ i := ho _ List.mem_cons_self
      rw [List.cons_append, latest?] at hg
      split at hg
      · exact absurd (Option.some.inj hg) hj
      · exact hold hg
    | disconnected g' => exact hold hg
    | accepted g' m => exact hold hg
    | refused g' m => exact hold hg
    | inSession j e => exact hold hg

/-- What every entry in a ledger keeps is kept as long as the session is not opened again. Messages
are entered only if a gateway opened the session last. -/
theorem ledger_append {P : Ledger ι → Prop} {i : SessionId} {o h : History ι}
    (ho : ∀ x ∈ o, ¬ x.Opens i)
    (haccept : ∀ g, (latest? g h).map Prod.fst = some i → ∀ r m, P r → P (r.accept m))
    (hadd : ∀ r e, P r → P (r.add e)) (hP : P (ledger i h)) : P (ledger i (o ++ h)) := by
  induction o with
  | nil => exact hP
  | cons x o ih =>
    have hold : ∀ y ∈ o, ¬ y.Opens i := fun y hy => ho y (List.mem_cons_of_mem _ hy)
    have hrest := ih hold
    cases x with
    | connected g j token ls ms =>
      have hj : j ≠ i := ho _ List.mem_cons_self
      rw [List.cons_append, ledger, if_neg hj]
      exact hrest
    | disconnected g => exact hrest
    | accepted g m =>
      rw [List.cons_append, ledger]
      split
      · rename_i hg
        exact haccept g (latest?_of_append hold hg) _ m hrest
      · exact hrest
    | refused g m => exact hrest
    | inSession j e =>
      rw [List.cons_append, ledger]
      split
      · exact hadd _ e hrest
      · exact hrest

/-- A gateway that was disconnected feeds nothing until it connects again. -/
theorem fed?_append_eq_none {g : GatewayId} {o h : History ι} (ho : ∀ x ∈ o, ¬ x.IsConnectOf g)
    (hg : fed? g h = none) : fed? g (o ++ h) = none := by
  induction o with
  | nil => exact hg
  | cons x o ih =>
    have hrest := ih fun y hy => ho y (List.mem_cons_of_mem _ hy)
    cases x with
    | connected g' j token ls ms =>
      have hg' : g' ≠ g := ho _ List.mem_cons_self
      rw [List.cons_append, fed?, if_neg hg']
      exact hrest
    | disconnected g' =>
      rw [List.cons_append, fed?]
      split
      · rfl
      · exact hrest
    | accepted g' m => exact hrest
    | refused g' m => exact hrest
    | inSession j e => exact hrest

end History

open History

/-! ## What acts do to a ledger -/

namespace Deed

theorem length_sessions_after (d : Deed ι) (w : Network ι σ) :
    (d.after w).sessions.length = w.sessions.length := by
  rcases d.after_cases w with h | ⟨i, f, h⟩ | ⟨g, f, h⟩
  · rw [h]
  · rw [h, Network.length_sessions_onSession]
  · rw [h]
    rfl

/-- No deed opens a session. -/
theorem not_opens_of_mem {d : Deed ι} {w : Network ι σ} {x : Occurrence ι} {i : SessionId}
    (hx : x ∈ d.occurrences w) : ¬ x.Opens i := by
  have hone : ∀ y : Occurrence ι, ¬ y.Opens i → x ∈ [y] → ¬ x.Opens i := by
    intro y hy hmem
    rwa [List.mem_singleton.mp hmem]
  cases d with
  | inject g m =>
    rw [occurrences] at hx
    split at hx
    · exact hone _ id hx
    · exact hone _ id hx
  | listen j l => exact hone _ id hx
  | shutdown j => exact hone _ id hx
  | disconnect g => exact hone _ id hx
  | send channel content => cases hx
  | log e => cases hx

end Deed

namespace Course

/-- All that a deed can do to a ledger. -/
inductive Deeded (c : Course ι σ) (i : SessionId) : Ledger ι → Prop
  | same : Deeded c i (ledger i c.history)
  | accepted {g : GatewayId} (hg : c.network.isConnected g = true)
    (hlatest : (latest? g c.history).map Prod.fst = some i) (m : Message) :
    Deeded c i ((ledger i c.history).accept m)
  | registered (l : ι) : Deeded c i ((ledger i c.history).add (.registered l))
  | shutDown : Deeded c i ((ledger i c.history).add .shutDown)

theorem deeded (c : Course ι σ) (d : Deed ι) (i : SessionId) :
    c.Deeded i (ledger i (c.deed d).history) := by
  cases d with
  | send channel content => exact .same
  | log e => exact .same
  | disconnect g => exact .same
  | inject g m =>
    cases hg : c.network.isConnected g with
    | false =>
      rw [deed_inject_of_not_isConnected hg]
      exact .same
    | true =>
      obtain ⟨j, -, -, hdeed⟩ := deed_inject_of_isConnected hg m
      rw [hdeed, ledger]
      split
      · exact .accepted hg ‹_› m
      · exact .same
  | listen j l =>
    show c.Deeded i (ledger i (.inSession j (.registered l) :: c.history))
    rw [ledger]
    split
    · exact .registered l
    · exact .same
  | shutdown j =>
    show c.Deeded i (ledger i (.inSession j .shutDown :: c.history))
    rw [ledger]
    split
    · exact .shutDown
    · exact .same

/-! ## What comes of a course -/

/-- The account of an ended session is closed. -/
structure Closes (r r' : Ledger ι) : Prop where
  accepted_eq : r'.accepted = r.accepted
  taken_eq : r'.taken = r.taken
  owed_eq : r'.owed = r.owed
  calls_eq : r'.calls = r.calls

theorem Closes.refl (r : Ledger ι) : Closes r r := ⟨rfl, rfl, rfl, rfl⟩

/-- What comes of a course: the history goes on, without opening a session again that is there, and
the accounts of ended sessions are closed. -/
structure Leads (c c' : Course ι σ) : Prop where
  length_le : c.network.sessions.length ≤ c'.network.sessions.length
  history_eq : ∃ o, c'.history = o ++ c.history ∧
    ∀ i < c.network.sessions.length, ∀ x ∈ o, ¬ x.Opens i
  closes : ∀ i < c.network.sessions.length, (ledger i c.history).hasEnded = true →
    Closes (ledger i c.history) (ledger i c'.history)

namespace Leads

variable {c c' c'' : Course ι σ} {i : SessionId}

/-- What every event of a session keeps, and every message, is kept. -/
theorem ledger_of (h : c.Leads c') {P : Ledger ι → Prop} (haccept : ∀ r m, P r → P (r.accept m))
    (hadd : ∀ r e, P r → P (r.add e)) (hi : i < c.network.sessions.length)
    (hP : P (ledger i c.history)) : P (ledger i c'.history) := by
  obtain ⟨o, ho, hnew⟩ := h.history_eq
  rw [ho]
  exact ledger_append (hnew i hi) (fun _ _ => haccept) hadd hP

theorem hasEnded (h : c.Leads c') (hi : i < c.network.sessions.length)
    (hended : (ledger i c.history).hasEnded = true) : (ledger i c'.history).hasEnded = true := by
  refine h.ledger_of (P := fun r => r.hasEnded = true) (fun _ _ hr => hr) ?_ hi hended
  intro r e hr
  cases e <;> first | exact hr | rfl

theorem isShutDown (h : c.Leads c') (hi : i < c.network.sessions.length)
    (hshut : (ledger i c.history).isShutDown = true) :
    (ledger i c'.history).isShutDown = true := by
  refine h.ledger_of (P := fun r => r.isShutDown = true) (fun _ _ hr => hr) ?_ hi hshut
  intro r e hr
  cases e <;> first | exact hr | rfl

theorem refl (c : Course ι σ) : c.Leads c where
  length_le := Nat.le_refl _
  history_eq := ⟨[], rfl, fun _ _ _ hx => nomatch hx⟩
  closes _ _ _ := .refl _

theorem trans (h : c.Leads c') (h' : c'.Leads c'') : c.Leads c'' where
  length_le := Nat.le_trans h.length_le h'.length_le
  history_eq := by
    obtain ⟨o, ho, hnew⟩ := h.history_eq
    obtain ⟨o', ho', hnew'⟩ := h'.history_eq
    refine ⟨o' ++ o, by rw [ho', ho, List.append_assoc], fun i hi x hx => ?_⟩
    rcases List.mem_append.mp hx with hx | hx
    · exact hnew' i (Nat.lt_of_lt_of_le hi h.length_le) x hx
    · exact hnew i hi x hx
  closes i hi hended := by
    have first := h.closes i hi hended
    have second := h'.closes i (Nat.lt_of_lt_of_le hi h.length_le) (h.hasEnded hi hended)
    exact ⟨second.accepted_eq.trans first.accepted_eq, second.taken_eq.trans first.taken_eq,
      second.owed_eq.trans first.owed_eq, second.calls_eq.trans first.calls_eq⟩

end Leads

/-! ### Every act -/

theorem leads_login (c : Course ι σ) (client : ClientBuilder ι) : c.Leads (c.login client) := by
  have hstep := loggedIn client c
  generalize c.login client = c' at hstep ⊢
  cases hstep with
  | failed => exact .refl c
  | @opened g gw gw' token stream hgw hopens =>
    refine ⟨?_, ⟨[_], rfl, ?_⟩, ?_⟩
    · rw [List.length_append]
      exact Nat.le_add_right _ _
    · intro i hi x hx hopens
      rw [List.mem_singleton.mp hx] at hopens
      exact absurd hopens (Nat.ne_of_gt hi)
    · intro i hi hended
      rw [ledger, if_neg (Nat.ne_of_gt hi)]
      exact .refl _

namespace Sound

variable {c : Course ι σ}

/-- A session that a connected gateway opened last has not ended. -/
theorem not_ended_of_isConnected (h : c.Sound) {g : GatewayId} {i : SessionId}
    (hg : c.network.isConnected g = true) (hlatest : (latest? g c.history).map Prod.fst = some i) :
    (ledger i c.history).hasEnded = false := by
  rw [Network.isConnected, Option.any_eq_true] at hg
  obtain ⟨j, hin, htakes⟩ := hg
  have hij : i = j := Option.some.inj (hlatest.symm.trans (h.latest?_of_inboundOf hin))
  subst hij
  obtain ⟨s, hs, hopen⟩ := (c.network.takesMessages_eq_true_iff i).mp htakes
  exact (h.session hs).not_ended hopen

theorem leads_deed (h : c.Sound) (d : Deed ι) : c.Leads (c.deed d) where
  length_le := Nat.le_of_eq (d.length_sessions_after c.network).symm
  history_eq := ⟨d.occurrences c.network, rfl, fun _ _ _ hx => Deed.not_opens_of_mem hx⟩
  closes i _ hended := by
    have hdeed := c.deeded d i
    generalize ledger i (c.deed d).history = r' at hdeed ⊢
    cases hdeed with
    | same => exact .refl _
    | accepted hg hlatest m =>
      exact absurd (hended.symm.trans (h.not_ended_of_isConnected hg hlatest)) nofun
    | registered l => exact ⟨rfl, rfl, rfl, rfl⟩
    | shutDown => exact ⟨rfl, rfl, rfl, rfl⟩

theorem leads_deeds (h : c.Sound) (ds : List (Deed ι)) : c.Leads (c.deeds ds) := by
  induction ds generalizing c with
  | nil => exact .refl c
  | cons d ds ih => exact (h.leads_deed d).trans (ih (h.deed d))

/-- Something that happens to a session that has not ended. -/
theorem leads_inSession (h : c.Sound) {i : SessionId} {s : Session ι} {w : Network ι σ}
    (hs : c.network.sessions[i]? = some s) (hp : s.phase ≠ .ended)
    (hw : w.sessions.length = c.network.sessions.length) (e : SessionEvent ι) :
    c.Leads ⟨w, .inSession i e :: c.history⟩ where
  length_le := Nat.le_of_eq hw.symm
  history_eq := ⟨[.inSession i e], rfl, fun _ _ x hx hopens => by
    rw [List.mem_singleton.mp hx] at hopens
    exact hopens⟩
  closes j _ hended := by
    have hj : i ≠ j := by
      rintro rfl
      exact absurd (hended.symm.trans ((h.session hs).not_ended hp)) nofun
    rw [ledger, if_neg hj]
    exact .refl _

theorem leads_pump (h : c.Sound) (b : Behavior ι σ) (p : Preference) (i : SessionId) :
    c.Leads (c.pump b p i) := by
  have hstep := pumped b p i c
  generalize c.pump b p i = c' at hstep ⊢
  cases hstep with
  | idle => exact .refl c
  | @called s m l left hs hp =>
    have hcalling : c.Leads (c.calling b i m l left) :=
      h.leads_inSession (w := (c.calling b i m l left).network) hs (by rw [hp]; nofun)
        (Network.length_sessions_onSession _ _ _) (.called m l)
    exact hcalling.trans ((h.calling b hs hp).leads_deeds _)
  | finished hs hp =>
    exact ⟨Nat.le_of_eq (Network.length_sessions_onSession _ _ _).symm,
      ⟨[], rfl, fun _ _ _ hx => nomatch hx⟩, fun _ _ _ => .refl _⟩
  | took hs hp hq hopen =>
    exact h.leads_inSession hs (by rw [hp]; nofun) (Network.length_sessions_onSession _ _ _) _
  | ended hs hp hend =>
    exact h.leads_inSession hs (by rw [hp]; nofun) (Network.length_sessions_onSession _ _ _) _

theorem leads_act (h : c.Sound) (b : Behavior ι σ) (a : NetworkAct ι) : c.Leads (c.act b a) := by
  cases a with
  | login client => exact leads_login c client
  | deed d => exact h.leads_deed d
  | pump p i => exact h.leads_pump b p i

theorem leads_run (h : c.Sound) (b : Behavior ι σ) (acts : List (NetworkAct ι)) :
    c.Leads (c.run b acts) := by
  induction acts generalizing c with
  | nil => exact .refl c
  | cons a acts ih => exact (h.leads_act b a).trans (ih (h.act b a))

end Sound

end Course

end CommandBot
