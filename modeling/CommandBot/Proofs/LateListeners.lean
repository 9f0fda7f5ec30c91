import CommandBot.Proofs.EventDelivery

/-
  What a listener hears that is registered with a client that has logged in. A message is accepted
  at one moment and taken from the queue at a later one, and who is called with it is settled at the
  second. So a listener that comes between the two is called with a message from before its time
  (`not_hearsOnlyLater_of_registered`). `hears_run` says what every run keeps to: what was taken
  before the registration is never given to the listener, and all that is taken after it is, first
  the messages that waited then and behind them those that were accepted since.

  The registration may stand anywhere in a history, also within the call of another listener. So all
  is said of histories: `isOrderly_run` says once what may follow what, and the rest follows from
  that.
-/

namespace CommandBot

variable {ι σ : Type}

/-! ## What may follow what -/

/-- A task takes the message that has waited longest, and makes the calls that are owed in order. -/
def Ledger.Permits (r : Ledger ι) : SessionEvent ι → Prop
  | .took m => r.taken ++ [m] <+: r.accepted
  | .called m l => r.calls ++ [(m, l)] <+: r.owed
  | _ => True

namespace History

/-- A session is opened once, and does only what its ledger permits. -/
def Permits (h : History ι) : Occurrence ι → Prop
  | .connected _ i _ _ _ => ∀ x ∈ h, ¬ x.Opens i
  | .inSession i e => (ledger i h).Permits e
  | _ => True

/-- Whether each occurrence is one that those before it permit. -/
def IsOrderly : History ι → Prop
  | [] => True
  | x :: h => Permits h x ∧ IsOrderly h

namespace IsOrderly

variable {i : SessionId} {h later : History ι}

theorem of_append (horderly : IsOrderly (later ++ h)) : IsOrderly h := by
  induction later with
  | nil => exact horderly
  | cons x later ih => exact ih horderly.2

/-- A session that is open is not opened again. -/
theorem not_opens (horderly : IsOrderly (later ++ h)) {x : Occurrence ι} (hx : x ∈ h)
    (hopens : x.Opens i) : ∀ y ∈ later, ¬ y.Opens i := by
  induction later with
  | nil => exact fun y hy => nomatch hy
  | cons y later ih =>
    rw [List.forall_mem_cons]
    refine ⟨fun hy => ?_, ih horderly.2⟩
    cases y with
    | connected g j token ls ms =>
      obtain rfl : j = i := hy
      exact horderly.1 x (List.mem_append_right _ hx) hopens
    | disconnected g => exact hy
    | accepted g m => exact hy
    | refused g m => exact hy
    | inSession j e => exact hy

/-- What every ledger has at its opening and every permitted entry keeps. -/
theorem ledger_of {P : Ledger ι → Prop} (horderly : IsOrderly h)
    (hopen : ∀ listeners waiting, P { accepted := waiting, listeners })
    (haccept : ∀ r m, P r → P (r.accept m)) (hadd : ∀ r e, r.Permits e → P r → P (r.add e)) :
    P (ledger i h) := by
  induction h with
  | nil => exact hopen [] []
  | cons x h ih =>
    have hbefore := ih horderly.2
    cases x with
    | connected g j token ls ms =>
      rw [ledger]
      split
      · exact hopen ls ms
      · exact hbefore
    | disconnected g => exact hbefore
    | accepted g m =>
      rw [ledger]
      split
      · exact haccept _ m hbefore
      · exact hbefore
    | refused g m => exact hbefore
    | inSession j e =>
      rw [ledger]
      split
      · rename_i hj
        subst hj
        exact hadd _ e horderly.1 hbefore
      · exact hbefore

end IsOrderly

end History

open History

/-! ## What a ledger shows at any moment -/

/-- Messages are taken in the order in which they were accepted, and calls are made in the order in
which they are owed, to listeners that are registered. -/
structure Ledger.IsBalanced (r : Ledger ι) : Prop where
  taken_prefix : r.taken <+: r.accepted
  calls_prefix : r.calls <+: r.owed
  registered : ∀ x ∈ r.owed, x.2 ∈ r.listeners

theorem History.IsOrderly.isBalanced {h : History ι} (horderly : IsOrderly h) (i : SessionId) :
    (ledger i h).IsBalanced := by
  refine horderly.ledger_of ?_ ?_ ?_
  · exact fun _ _ => ⟨List.nil_prefix, List.nil_prefix, fun _ hx => nomatch hx⟩
  · intro r m hr
    exact ⟨hr.taken_prefix.trans (List.prefix_append _ _), hr.calls_prefix, hr.registered⟩
  · intro r e hpermits hr
    cases e with
    | registered l =>
      exact ⟨hr.taken_prefix, hr.calls_prefix,
        fun x hx => List.mem_append_left _ (hr.registered x hx)⟩
    | shutDown => exact ⟨hr.taken_prefix, hr.calls_prefix, hr.registered⟩
    | took m =>
      refine ⟨hpermits, hr.calls_prefix.trans (List.prefix_append _ _), fun x hx => ?_⟩
      rcases List.mem_append.mp hx with hx | hx
      · exact hr.registered x hx
      · obtain ⟨l, hl, rfl⟩ := List.mem_map.mp hx
        exact hl
    | called m l => exact ⟨hr.taken_prefix, hpermits, hr.registered⟩
    | ended => exact ⟨hr.taken_prefix, hr.calls_prefix, hr.registered⟩

/-- From one ledger to a later one of the same session: messages `newly` accepted, and messages
`late` taken, each of which is owed to those who were registered when it was taken. -/
structure Ledger.Grows (r r' : Ledger ι) (newly : List Message) (late : List (Message × List ι)) :
    Prop where
  accepted_eq : r'.accepted = r.accepted ++ newly
  taken_eq : r'.taken = r.taken ++ late.map Prod.fst
  owed_eq : r'.owed = r.owed ++ late.flatMap fun x => x.2.map (x.1, ·)
  listeners_prefix : r.listeners <+: r'.listeners
  registered : ∀ x ∈ late, r.listeners <+: x.2

namespace Ledger.Grows

variable {r r' : Ledger ι} {newly : List Message} {late : List (Message × List ι)}

theorem refl (r : Ledger ι) : r.Grows r [] [] where
  accepted_eq := (List.append_nil _).symm
  taken_eq := (List.append_nil _).symm
  owed_eq := (List.append_nil _).symm
  listeners_prefix := List.prefix_rfl
  registered _ hx := nomatch hx

theorem accept (h : r.Grows r' newly late) (m : Message) :
    r.Grows (r'.accept m) (newly ++ [m]) late where
  accepted_eq := by
    show r'.accepted ++ [m] = _
    rw [h.accepted_eq, List.append_assoc]
  taken_eq := h.taken_eq
  owed_eq := h.owed_eq
  listeners_prefix := h.listeners_prefix
  registered := h.registered

theorem took (h : r.Grows r' newly late) (m : Message) :
    r.Grows (r'.add (.took m)) newly (late ++ [(m, r'.listeners)]) where
  accepted_eq := h.accepted_eq
  taken_eq := by
    show r'.taken ++ [m] = _
    rw [h.taken_eq, List.map_append, List.append_assoc]
    rfl
  owed_eq := by
    show r'.owed ++ r'.listeners.map (m, ·) = _
    rw [h.owed_eq, List.flatMap_append, List.append_assoc, List.flatMap_singleton]
  listeners_prefix := h.listeners_prefix
  registered := by
    rw [List.forall_mem_append, List.forall_mem_singleton]
    exact ⟨h.registered, h.listeners_prefix⟩

theorem add (h : r.Grows r' newly late) (e : SessionEvent ι) :
    ∃ late', r.Grows (r'.add e) newly late' := by
  cases e with
  | registered l =>
    exact ⟨late, h.accepted_eq, h.taken_eq, h.owed_eq,
      h.listeners_prefix.trans (List.prefix_append _ _), h.registered⟩
  | took m => exact ⟨_, h.took m⟩
  | shutDown => exact ⟨late, h.accepted_eq, h.taken_eq, h.owed_eq, h.listeners_prefix, h.registered⟩
  | called m l =>
    exact ⟨late, h.accepted_eq, h.taken_eq, h.owed_eq, h.listeners_prefix, h.registered⟩
  | ended => exact ⟨late, h.accepted_eq, h.taken_eq, h.owed_eq, h.listeners_prefix, h.registered⟩

end Ledger.Grows

/-- The ledger of a session that is open only grows. -/
theorem History.IsOrderly.exists_grows {i : SessionId} {h later : History ι}
    (horderly : IsOrderly (later ++ h)) {x : Occurrence ι} (hx : x ∈ h) (hopens : x.Opens i) :
    ∃ newly late, (ledger i h).Grows (ledger i (later ++ h)) newly late := by
  refine ledger_append (P := fun r => ∃ newly late, (ledger i h).Grows r newly late)
    (horderly.not_opens hx hopens) ?_ ?_ ⟨[], [], .refl _⟩
  · rintro g - r m ⟨newly, late, hgrows⟩
    exact ⟨_, late, hgrows.accept m⟩
  · rintro r e ⟨newly, late, hgrows⟩
    exact ⟨newly, hgrows.add e⟩

/-! ## Every run is orderly -/

namespace Course

/-- The history is orderly, and tells of no session but those that are there. -/
structure IsOrderly (c : Course ι σ) : Prop where
  history : c.history.IsOrderly
  opened : ∀ x ∈ c.history, ∀ i, x.Opens i → i < c.network.sessions.length

theorem isOrderly_start (gateways : List (String × Manner)) (memory : σ) :
    (start gateways memory : Course ι σ).IsOrderly where
  history := trivial
  opened _ hx := nomatch hx

namespace IsOrderly

variable {c : Course ι σ}

/-- Something that happens to a session, with as many sessions as before. -/
theorem inSession (h : c.IsOrderly) {w : Network ι σ} {i : SessionId} {e : SessionEvent ι}
    (hw : w.sessions.length = c.network.sessions.length)
    (hpermits : (ledger i c.history).Permits e) : IsOrderly ⟨w, .inSession i e :: c.history⟩ where
  history := ⟨hpermits, h.history⟩
  opened := by
    rw [List.forall_mem_cons]
    exact ⟨fun j hj => hj.elim, fun x hx j hj => hw ▸ h.opened x hx j hj⟩

theorem deed (h : c.IsOrderly) (d : Deed ι) : (c.deed d).IsOrderly where
  history := by
    show History.IsOrderly (d.occurrences c.network ++ c.history)
    cases d with
    | inject g m =>
      rw [Deed.occurrences]
      split <;> exact ⟨trivial, h.history⟩
    | listen i l => exact ⟨trivial, h.history⟩
    | shutdown i => exact ⟨trivial, h.history⟩
    | disconnect g => exact ⟨trivial, h.history⟩
    | send channel content => exact h.history
    | log e => exact h.history
  opened x hx i hopens := by
    show i < (d.after c.network).sessions.length
    rw [d.length_sessions_after]
    rcases List.mem_append.mp hx with hx | hx
    · exact absurd hopens (Deed.not_opens_of_mem hx)
    · exact h.opened x hx i hopens

theorem deeds (h : c.IsOrderly) (ds : List (Deed ι)) : (c.deeds ds).IsOrderly := by
  induction ds generalizing c with
  | nil => exact h
  | cons d ds ih => exact ih (h.deed d)

theorem login (h : c.IsOrderly) (client : ClientBuilder ι) : (c.login client).IsOrderly := by
  have hstep := loggedIn client c
  generalize c.login client = c' at hstep ⊢
  cases hstep with
  | failed => exact h
  | opened hgw hopens =>
    refine ⟨⟨fun x hx hi => Nat.lt_irrefl _ (h.opened x hx _ hi), h.history⟩, ?_⟩
    have hlength : ∀ s : Session ι, (c.network.sessions ++ [s]).length =
        c.network.sessions.length + 1 := fun s => List.length_append
    intro x hx i hi
    show i < (c.network.sessions ++ [_]).length
    rw [hlength]
    rcases List.mem_cons.mp hx with rfl | hx
    · exact Nat.lt_succ_of_le (Nat.le_of_eq hi.symm)
    · exact Nat.lt_succ_of_lt (h.opened x hx i hi)

theorem pump (h : c.IsOrderly) (hsound : c.Sound) (b : Behavior ι σ) (p : Preference)
    (i : SessionId) : (c.pump b p i).IsOrderly := by
  have hstep := pumped b p i c
  generalize c.pump b p i = c' at hstep ⊢
  have hlength := fun f => Network.length_sessions_onSession c.network i f
  cases hstep with
  | idle => exact h
  | @called s m l left hs hp =>
    have hdue : (ledger i c.history).calls ++ [(m, l)] <+: (ledger i c.history).owed := by
      rw [(hsound.session hs).owed_eq, Session.dueCalls, hp, List.prefix_append_right_inj]
      exact ⟨left.map (m, ·), rfl⟩
    have hcalling : (c.calling b i m l left).IsOrderly := h.inSession (hlength _) hdue
    exact hcalling.deeds _
  | finished hs hp =>
    exact ⟨h.history, fun x hx j hj => (hlength _).symm ▸ h.opened x hx j hj⟩
  | @took s m rest hs hp hq hopen =>
    have hphase : s.phase ≠ .ended := by
      intro hended
      rw [hp] at hended
      cases hended
    have hended := (hsound.session hs).not_ended hphase
    have hwaits : (ledger i c.history).taken ++ [m] <+: (ledger i c.history).accepted := by
      rw [(hsound.session hs).accepted_eq (.inl hended), hq, List.prefix_append_right_inj]
      exact ⟨rest, rfl⟩
    exact h.inSession (hlength _) hwaits
  | ended hs hp hend => exact h.inSession (hlength _) trivial

theorem act (h : c.IsOrderly) (hsound : c.Sound) (b : Behavior ι σ) (a : NetworkAct ι) :
    (c.act b a).IsOrderly := by
  cases a with
  | login client => exact h.login client
  | deed d => exact h.deed d
  | pump p i => exact h.pump hsound b p i

theorem run (h : c.IsOrderly) (hsound : c.Sound) (b : Behavior ι σ) (acts : List (NetworkAct ι)) :
    (c.run b acts).IsOrderly := by
  induction acts generalizing c with
  | nil => exact h
  | cons a acts ih => exact ih (h.act hsound b a) (hsound.act b a)

end IsOrderly

theorem isOrderly_run (gateways : List (String × Manner)) (memory : σ) (b : Behavior ι σ)
    (acts : List (NetworkAct ι)) : ((start gateways memory).run b acts).IsOrderly :=
  (isOrderly_start gateways memory).run (sound_start gateways memory) b acts

end Course

/-! ## What a late listener hears -/

namespace Ledger

/-- What a listener hears that is registered when the ledger of its session is `r`, up to a later
ledger: messages `newly` were accepted since, and messages `late` were taken since, each with those
who were registered then. -/
structure Hears (r r' : Ledger ι) (l : ι) (newly : List Message) (late : List (Message × List ι)) :
    Prop where
  accepted_eq : r'.accepted = r.accepted ++ newly
  taken_eq : r'.taken = r.taken ++ late.map Prod.fst
  /-- first come the messages that waited at the registration -/
  late_prefix : ∃ waiting, r.accepted = r.taken ++ waiting ∧
    late.map Prod.fst <+: waiting ++ newly
  owed_eq : r'.owed = r.owed ++ late.flatMap fun x => x.2.map (x.1, ·)
  /-- every message that is taken since is owed to the listener, behind those before it -/
  registered : ∀ x ∈ late, r.listeners ++ [l] <+: x.2
  /-- and no message that was taken before -/
  unheard : ∀ x ∈ r.owed, x.2 ≠ l
  calls_prefix : r'.calls <+: r'.owed

/-- The listener is called with no messages but those that were accepted since its registration. -/
def HearsOnlyLater (r r' : Ledger ι) (l : ι) : Prop :=
  ∀ m, (m, l) ∈ r'.calls → m ∈ r'.accepted.drop r.accepted.length

end Ledger

/-- What the listener hears, by the history alone. -/
theorem History.IsOrderly.exists_hears {i : SessionId} {l : ι} {later earlier : History ι}
    (horderly : IsOrderly (later ++ .inSession i (.registered l) :: earlier)) {x : Occurrence ι}
    (hx : x ∈ earlier) (hopens : x.Opens i) (hnew : l ∉ (ledger i earlier).listeners) :
    ∃ newly late, (ledger i earlier).Hears
      (ledger i (later ++ .inSession i (.registered l) :: earlier)) l newly late := by
  have hbefore := horderly.of_append.2.isBalanced i
  have hafter := horderly.isBalanced i
  have hregistered : ledger i (.inSession i (.registered l) :: earlier) =
      (ledger i earlier).add (.registered l) := if_pos rfl
  obtain ⟨newly, late, hgrows⟩ := horderly.exists_grows (List.mem_cons_of_mem _ hx) hopens
  rw [hregistered] at hgrows
  generalize ledger i (later ++ .inSession i (.registered l) :: earlier) = r' at hafter hgrows ⊢
  have haccepted : r'.accepted = (ledger i earlier).accepted ++ newly := hgrows.accepted_eq
  have htaken : r'.taken = (ledger i earlier).taken ++ late.map Prod.fst := hgrows.taken_eq
  refine ⟨newly, late, haccepted, htaken, ?_, hgrows.owed_eq, hgrows.registered, ?_,
    hafter.calls_prefix⟩
  · obtain ⟨waiting, hwaiting⟩ := hbefore.taken_prefix
    refine ⟨waiting, hwaiting.symm, ?_⟩
    have hprefix := hafter.taken_prefix
    rwa [haccepted, htaken, ← hwaiting, List.append_assoc, List.prefix_append_right_inj] at hprefix
  · rintro y hy rfl
    exact hnew (hbefore.registered y hy)

namespace Course

/-- On a network of fresh gateways, whatever happens before and after a listener is registered with
a client that has logged in, from outside or by another listener. -/
theorem hears_run (gateways : List (String × Manner)) (memory : σ) (b : Behavior ι σ)
    (acts : List (NetworkAct ι)) {i : SessionId} {l : ι} {later earlier : History ι}
    {x : Occurrence ι}
    (hsplit : ((start gateways memory).run b acts).history =
      later ++ .inSession i (.registered l) :: earlier)
    (hx : x ∈ earlier) (hopens : x.Opens i) (hnew : l ∉ (ledger i earlier).listeners) :
    let c := (start gateways memory).run b acts
    (∃ newly late, (ledger i earlier).Hears (ledger i c.history) l newly late) ∧
      ∀ s, c.network.sessions[i]? = some s → (∀ m left, s.phase ≠ .handling m left) →
        (ledger i c.history).calls = (ledger i c.history).owed := by
  intro c
  have horderly : c.history.IsOrderly := (isOrderly_run gateways memory b acts).history
  have hsound : c.Sound := sound_run gateways memory b acts
  refine ⟨?_, fun s hs hp => hsound.calls_eq_owed hs hp⟩
  have hhistory : c.history = later ++ .inSession i (.registered l) :: earlier := hsplit
  rw [hhistory] at horderly ⊢
  exact horderly.exists_hears hx hopens hnew

/-- A listener is registered while one message is handled and the next one waits. -/
def lateRun : Course Bool Unit :=
  (start [("loopback", .loopback)] ()).run .idle
    ([.login { token := some "t", gateway := some 0, listeners := [false] },
      .deed (.inject 0 (remark "a")), .deed (.inject 0 (remark "b")), .pump .stream 0,
      .deed (.listen 0 true), .deed (.inject 0 (remark "c"))] ++
      List.replicate 10 (.pump .stream 0))

/-- It hears the message that waited and then the one that came in later, and not the one at hand.
-/
theorem hears_run_waiting :
    ∃ later earlier, lateRun.history = later ++ .inSession 0 (.registered true) :: earlier ∧
      true ∉ (ledger 0 earlier).listeners ∧
      (ledger 0 earlier).accepted = [remark "a", remark "b"] ∧
      ∃ newly late, (ledger 0 earlier).Hears (ledger 0 lateRun.history) true newly late ∧
        newly = [remark "c"] ∧ late.map Prod.fst = [remark "b", remark "c"] := by
  have hsplit : lateRun.history = lateRun.history.take 8 ++
      .inSession 0 (.registered true) :: lateRun.history.drop 9 := rfl
  have hopened : .connected 0 0 "t" [false] [] ∈ lateRun.history.drop 9 := by
    have hearlier : lateRun.history.drop 9 = [.inSession 0 (.took (remark "a")),
      .accepted 0 (remark "b"), .accepted 0 (remark "a"), .connected 0 0 "t" [false] []] := rfl
    rw [hearlier]
    simp
  have hnew : true ∉ (ledger 0 (lateRun.history.drop 9)).listeners := by decide
  obtain ⟨⟨newly, late, hears⟩, -⟩ :=
    hears_run [("loopback", .loopback)] () .idle _ hsplit hopened rfl hnew
  refine ⟨_, _, hsplit, hnew, rfl, newly, late, hears, ?_, ?_⟩
  · exact (List.append_cancel_left hears.accepted_eq.symm :
      newly = [remark "c"])
  · exact (List.append_cancel_left hears.taken_eq.symm :
      late.map Prod.fst = [remark "b", remark "c"])

/-- A message that was accepted before is given to a listener that is registered before it is taken.
-/
theorem not_hearsOnlyLater_of_registered :
    ¬ ∀ (acts : List (NetworkAct Unit)) (i : SessionId) (later earlier : History Unit),
      let c := (start [("loopback", .loopback)] ()).run .idle acts
      c.history = later ++ .inSession i (.registered ()) :: earlier →
        () ∉ (ledger i earlier).listeners →
          (ledger i earlier).HearsOnlyLater (ledger i c.history) () := by
  intro hall
  have hears := hall [.login { token := some "t", gateway := some 0 },
    .deed (.inject 0 (remark "a")), .deed (.listen 0 ()), .pump .stream 0, .pump .stream 0] 0
    [.inSession 0 (.called (remark "a") ()), .inSession 0 (.took (remark "a"))]
    [.accepted 0 (remark "a"), .connected 0 0 "t" [] []] rfl nofun (remark "a")
    (List.mem_singleton.mpr rfl)
  exact absurd hears List.not_mem_nil

end Course

end CommandBot
