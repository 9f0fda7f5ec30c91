import CommandBot.Proofs.ActOutputs

/-
  Networks that look alike. Two networks are `Alike` if they differ in no more than the tokens that
  gateways keep and in what is remembered, where the one memory is seen through a function. No act
  can tell them apart: it answers the same, puts out the same and leaves networks alike (`Agree`),
  as long as listeners that remember alike react alike (`agree_performAll`).
-/

namespace CommandBot

variable {ι σ τ : Type}

/-- A gateway without its token. -/
def Gateway.hidden (gw : Gateway) : Gateway := { gw with token := none }

theorem Gateway.eq_of_hidden_eq {gw gw' : Gateway} (h : gw'.hidden = gw.hidden) :
    gw' = { gw with token := gw'.token } := by
  obtain ⟨hname, hmanner, hinbound, -, hreplies⟩ := Gateway.mk.inj h
  rw [← hname, ← hmanner, ← hinbound, ← hreplies]

/-- Networks that differ in tokens of gateways and in what is remembered, which is `f` of what is
remembered on the first one. -/
structure Network.Alike (f : σ → τ) (w : Network ι σ) (w' : Network ι τ) : Prop where
  gateways_eq : w'.gateways.map Gateway.hidden = w.gateways.map Gateway.hidden
  sessions_eq : w'.sessions = w.sessions
  installed_eq : w'.installed = w.installed
  memory_eq : w'.memory = f w.memory

/-- The same answer and the same output, and networks that are alike behind them. -/
structure Agree {α : Type} (f : σ → τ) (r : Logged (α × Network ι σ))
    (r' : Logged (α × Network ι τ)) : Prop where
  answer_eq : r'.value.1 = r.value.1
  outputs_eq : r'.outputs = r.outputs
  alike : r.value.2.Alike f r'.value.2

namespace Agree

variable {α β : Type} {f : σ → τ}

theorem pure {w : Network ι σ} {w' : Network ι τ} (h : w.Alike f w') (a : α) :
    Agree f (Pure.pure (a, w)) (Pure.pure (a, w')) :=
  ⟨rfl, rfl, h⟩

theorem bind {m : Exchange ι σ α} {m' : Exchange ι τ α} {k : α → Exchange ι σ β}
    {k' : α → Exchange ι τ β} {w : Network ι σ} {w' : Network ι τ} (h : Agree f (m w) (m' w'))
    (hk : ∀ a v v', v.Alike f v' → Agree f (k a v) (k' a v')) :
    Agree f ((m >>= k) w) ((m' >>= k') w') := by
  have hnext := hk (m w).value.1 _ _ h.alike
  refine ⟨?_, ?_, ?_⟩
  · rw [Exchange.value_bind, Exchange.value_bind, h.answer_eq]
    exact hnext.answer_eq
  · rw [Exchange.outputs_bind, Exchange.outputs_bind, h.answer_eq, h.outputs_eq, hnext.outputs_eq]
  · rw [Exchange.value_bind, Exchange.value_bind, h.answer_eq]
    exact hnext.alike

theorem within (s : Log.Scope) {r : Logged (α × Network ι σ)} {r' : Logged (α × Network ι τ)}
    (h : Agree f r r') : Agree f (r.within s) (r'.within s) :=
  ⟨h.answer_eq, congrArg (List.map (Output.within s)) h.outputs_eq, h.alike⟩

end Agree

namespace Network.Alike

variable {f : σ → τ} {w : Network ι σ} {w' : Network ι τ}

/-! ## Views -/

theorem map_hidden_eq (h : w.Alike f w') (g : GatewayId) :
    (w'.gateways[g]?).map Gateway.hidden = (w.gateways[g]?).map Gateway.hidden := by
  rw [← List.getElem?_map, ← List.getElem?_map, h.gateways_eq]

/-- What does not look at tokens is the same on both. -/
theorem map_gateway_eq {α : Type} (h : w.Alike f w') (g : GatewayId) (view : Gateway → α)
    (hview : ∀ gw : Gateway, view gw.hidden = view gw) :
    (w'.gateways[g]?).map view = (w.gateways[g]?).map view := by
  have hsame := congrArg (Option.map view) (h.map_hidden_eq g)
  simpa only [Option.map_map, Function.comp_def, hview] using hsame

theorem inboundOf_eq (h : w.Alike f w') (g : GatewayId) : w'.inboundOf g = w.inboundOf g := by
  have hbind : ∀ o : Option Gateway, o.bind Gateway.inbound = (o.map Gateway.inbound).join := by
    rintro (_ | gw) <;> rfl
  rw [inboundOf, inboundOf, hbind, hbind, h.map_gateway_eq g Gateway.inbound fun _ => rfl]

theorem nameOf_eq (h : w.Alike f w') (g : GatewayId) : w'.nameOf g = w.nameOf g := by
  rw [nameOf, nameOf, h.map_gateway_eq g Gateway.name fun _ => rfl]

theorem takesMessages_eq (h : w.Alike f w') (i : SessionId) :
    w'.takesMessages i = w.takesMessages i := by
  rw [takesMessages, takesMessages, h.sessions_eq]

theorem isStreamReady_eq (h : w.Alike f w') (i : SessionId) (s : Session ι) :
    w'.isStreamReady i s = w.isStreamReady i s := by
  have hany : (w'.gateways.any fun g => g.inbound == some i) =
      w.gateways.any fun g => g.inbound == some i := by
    have hsame := congrArg (List.any · fun g => g.inbound == some i) h.gateways_eq
    rw [List.any_map, List.any_map] at hsame
    exact hsame
  rw [isStreamReady, isStreamReady, isFed, isFed, h.sessions_eq, hany]

/-! ## Changes -/

theorem onSession (h : w.Alike f w') (i : SessionId) (k : Session ι → Session ι) :
    (w.onSession i k).Alike f (w'.onSession i k) :=
  ⟨h.gateways_eq, congrArg (List.modify · i k) h.sessions_eq, h.installed_eq, h.memory_eq⟩

/-- A gateway may be changed on both, if no difference comes of it but in its token. -/
theorem onGateway (h : w.Alike f w') (g : GatewayId) {k k' : Gateway → Gateway}
    (hk : ∀ gw gw' : Gateway, w.gateways[g]? = some gw → w'.gateways[g]? = some gw' →
      gw'.hidden = gw.hidden → (k' gw').hidden = (k gw).hidden) :
    (w.onGateway g k).Alike f (w'.onGateway g k') := by
  refine ⟨?_, h.sessions_eq, h.installed_eq, h.memory_eq⟩
  refine List.ext_getElem? fun j => ?_
  rw [List.getElem?_map, List.getElem?_map]
  have hj := h.map_hidden_eq j
  by_cases hne : j = g
  · subst hne
    rw [gateway_onGateway, gateway_onGateway]
    rcases hgw : w.gateways[j]? with _ | gw
    · rw [hgw, Option.map_none, Option.map_eq_none_iff] at hj
      rw [hj]
      rfl
    · rw [hgw, Option.map_some, Option.map_eq_some_iff] at hj
      obtain ⟨gw', hgw', hhidden⟩ := hj
      rw [hgw', Option.map_some, Option.map_some, Option.map_some, Option.map_some,
        hk gw gw' hgw hgw' hhidden]
  · rw [gateway_onGateway_of_ne _ hne, gateway_onGateway_of_ne _ hne]
    exact hj

theorem inject (h : w.Alike f w') (g : GatewayId) (m : Message) :
    (w'.inject g m).1 = (w.inject g m).1 ∧ (w.inject g m).2.Alike f (w'.inject g m).2 := by
  unfold Network.inject
  rw [h.inboundOf_eq]
  split
  · exact ⟨rfl, h⟩
  · rw [h.takesMessages_eq]
    split
    · exact ⟨rfl, h.onSession _ _⟩
    · exact ⟨rfl, h⟩

theorem send (h : w.Alike f w') (c : Channel) (content : String) :
    (w'.send c content).1 = (w.send c content).1 ∧
      (w.send c content).2.Alike f (w'.send c content).2 := by
  unfold Network.send
  split
  · exact ⟨rfl, h⟩
  · let reply : Reply := ⟨c.name, content⟩
    refine ⟨rfl, h.onGateway _ fun gw gw' _ _ hhidden => ?_⟩
    exact congrArg (fun gw => { gw with replies := gw.replies ++ [reply] }) hhidden

theorem disconnect (h : w.Alike f w') (g : GatewayId) :
    (w'.disconnect g).outputs = (w.disconnect g).outputs ∧
      (w.disconnect g).value.Alike f (w'.disconnect g).value := by
  unfold Network.disconnect
  rw [h.inboundOf_eq]
  split
  · exact ⟨rfl, h⟩
  · refine ⟨rfl, h.onGateway _ fun gw gw' _ _ hhidden => ?_⟩
    exact congrArg (fun gw => { gw with inbound := none }) hhidden

/-! ## Acts -/

theorem agree_deed (h : w.Alike f w') (d : Deed ι) :
    d.fault? w' = d.fault? w ∧ Agree f (d.perform w) (d.perform w') := by
  cases d with
  | send c content =>
    obtain ⟨hfault, halike⟩ := h.send c content
    exact ⟨congrArg ClientFault.of? hfault, rfl, rfl, halike⟩
  | log e => exact ⟨rfl, rfl, rfl, h⟩
  | inject g m =>
    obtain ⟨hfault, halike⟩ := h.inject g m
    exact ⟨congrArg ClientFault.of? hfault, rfl, rfl, halike⟩
  | listen i l => exact ⟨rfl, rfl, rfl, h.onSession i _⟩
  | shutdown i => exact ⟨rfl, rfl, rfl, h.onSession i _⟩
  | disconnect g =>
    obtain ⟨houtputs, halike⟩ := h.disconnect g
    exact ⟨rfl, rfl, congrArg (· ++ []) houtputs, halike⟩

/-- A session is opened on both. -/
theorem opened (h : w.Alike f w') (g : GatewayId) {gw gw' : Gateway}
    (hhidden : gw'.hidden = gw.hidden) {s s' : Session ι} (hs : s' = s) :
    Network.Alike f { w.onGateway g fun _ => gw with sessions := w.sessions ++ [s] }
      { w'.onGateway g fun _ => gw' with sessions := w'.sessions ++ [s'] } :=
  ⟨(h.onGateway g fun _ _ _ _ _ => hhidden).gateways_eq, by rw [h.sessions_eq, hs],
    h.installed_eq, h.memory_eq⟩

/-- Clients that differ in the token enter alike, unless they are told a reason that differs. -/
theorem agree_enter (h : w.Alike f w') {c c' : ClientBuilder ι}
    (hlisteners : c'.listeners = c.listeners) (g : GatewayId) {gw gw' : Gateway}
    (hhidden : gw'.hidden = gw.hidden) {t t' : String}
    (htoken : ∀ reason, gw.manner = .refusing reason → reason t' = reason t) :
    Agree f (c.enter t g gw w) (c'.enter t' g gw' w') := by
  obtain ⟨token, rfl⟩ : ∃ token, gw' = { gw with token := token } :=
    ⟨_, Gateway.eq_of_hidden_eq hhidden⟩
  have hsession : ∀ stream, c'.session { gw with token := token } stream = c.session gw stream := by
    intro stream
    unfold ClientBuilder.session
    rw [hlisteners]
  have hlength := congrArg List.length h.sessions_eq
  obtain ⟨name, manner, inbound, token', replies⟩ := gw
  unfold ClientBuilder.enter Gateway.connect
  cases manner with
  | loopback =>
    refine ⟨congrArg Except.ok hlength, rfl, h.opened g ?_ (hsession _)⟩
    exact congrArg (fun n => (⟨name, .loopback, some n, none, replies⟩ : Gateway)) hlength
  | backlog contents staysOpen =>
    refine ⟨congrArg Except.ok hlength, rfl, h.opened g ?_ (hsession _)⟩
    rfl
  | refusing reason =>
    have hreason := htoken reason rfl
    refine ⟨congrArg (fun r => Except.error (ClientFault.loginFailed r)) hreason, rfl, ?_⟩
    exact h.onGateway g fun _ _ _ _ _ => rfl

/-- Clients that differ in the token log in alike, unless they are told a reason that differs. -/
theorem agree_login (h : w.Alike f w') {c c' : ClientBuilder ι} (hgateway : c'.gateway = c.gateway)
    (hlisteners : c'.listeners = c.listeners) {t t' : String} (ht : c.token = some t)
    (ht' : c'.token = some t')
    (htoken : ∀ g gw reason, c.gateway = some g → w.gateways[g]? = some gw →
      gw.manner = .refusing reason → reason t' = reason t) :
    Agree f (c.login w) (c'.login w') := by
  rcases hg : c.gateway with _ | g
  · rw [c.login_of_noGateway w ht hg, c'.login_of_noGateway w' ht' (hgateway.trans hg)]
    exact .pure h _
  · have hhidden := h.map_hidden_eq g
    rcases hgw : w.gateways[g]? with _ | gw
    · rw [hgw, Option.map_none, Option.map_eq_none_iff] at hhidden
      rw [c.login_of_unknown w ht hg hgw, c'.login_of_unknown w' ht' (hgateway.trans hg) hhidden]
      exact .pure h _
    · rw [hgw, Option.map_some, Option.map_eq_some_iff] at hhidden
      obtain ⟨gw', hgw', hhidden⟩ := hhidden
      rw [c.login_of_gateway w ht hg hgw, c'.login_of_gateway w' ht' (hgateway.trans hg) hgw']
      exact h.agree_enter hlisteners g hhidden fun reason => htoken g gw reason hg hgw

theorem agree_login_self (h : w.Alike f w') (c : ClientBuilder ι) :
    Agree f (c.login w) (c.login w') := by
  rcases ht : c.token with _ | t
  · rw [c.login_of_noToken w ht, c.login_of_noToken w' ht]
    exact .pure h _
  · exact h.agree_login rfl rfl ht ht fun _ _ _ _ _ _ => rfl

end Network.Alike

/-! ## Listeners -/

/-- Listeners that react alike, when what they remember is alike: they do the same, panic at the
same calls and remember what is alike again. -/
def Behavior.Follows (f : σ → τ) (b : Behavior ι σ) (b' : Behavior ι τ) : Prop :=
  ∀ l m s, b' l m (f s) =
    { memory := f (b l m s).memory, deeds := (b l m s).deeds, panics := (b l m s).panics }

namespace Network.Alike

variable {f : σ → τ} {w : Network ι σ} {w' : Network ι τ} {b : Behavior ι σ} {b' : Behavior ι τ}

theorem agree_deeds (h : w.Alike f w') (ds : List (Deed ι)) :
    Agree f (ds.forM Deed.perform w) (ds.forM Deed.perform w') := by
  induction ds generalizing w w' with
  | nil => exact .pure h _
  | cons d ds ih =>
    show Agree f ((d.perform >>= fun _ => ds.forM Deed.perform) w)
      ((d.perform >>= fun _ => ds.forM Deed.perform) w')
    exact (h.agree_deed d).2.bind fun _ _ _ hnext => ih hnext

theorem agree_effects (h : w.Alike f w') (r : Reaction ι σ) :
    Agree f (r.effects w) (Reaction.effects ⟨f r.memory, r.deeds, r.panics⟩ w') := by
  have hremembered : Network.Alike f { w with memory := r.memory }
      { w' with memory := f r.memory } :=
    ⟨h.gateways_eq, h.sessions_eq, h.installed_eq, rfl⟩
  exact hremembered.agree_deeds r.deeds

theorem agree_callNext (h : w.Alike f w') (hb : b.Follows f b') (i : SessionId) (m : Message)
    (l : ι) (left : List ι) :
    Agree f (Session.callNext b i m l left w) (Session.callNext b' i m l left w') := by
  have hreaction : b' l m w'.memory = _ := (congrArg (b' l m) h.memory_eq).trans (hb l m w.memory)
  have heffects := (h.onSession i fun s => { s with phase := .handling m left }).agree_effects
    (b l m w.memory)
  rw [Session.callNext_eq, Session.callNext_eq, hreaction]
  exact ⟨rfl, congrArg (· ++ _) heffects.outputs_eq, heffects.alike⟩

theorem agree_step (h : w.Alike f w') (hb : b.Follows f b') (p : Preference) (i : SessionId)
    (s : Session ι) : Agree f (s.step b p i w) (s.step b' p i w') := by
  have hfinish : ∀ e, Agree f (Session.finish i e w) (Session.finish i e w') := fun e =>
    ⟨rfl, rfl, h.onSession i _⟩
  unfold Session.step
  rcases s.phase with _ | ⟨m, _ | ⟨l, left⟩⟩ | _
  · have hready := h.isStreamReady_eq i s
    have hwaiting : Agree f
        ((if s.isClosed && !(w.isStreamReady i s && p == .stream) then
            Session.finish i Session.shutDownEvent
          else if w.isStreamReady i s then s.attend i else pure () : Exchange ι σ Unit) w)
        ((if s.isClosed && !(w'.isStreamReady i s && p == .stream) then
            Session.finish i Session.shutDownEvent
          else if w'.isStreamReady i s then s.attend i else pure () : Exchange ι τ Unit) w') := by
      rw [hready]
      split
      · exact hfinish _
      · split
        · unfold Session.attend
          rcases s.queue with _ | ⟨m, rest⟩
          · exact hfinish _
          · exact ⟨rfl, rfl, h.onSession i _⟩
        · exact .pure h _
    exact hwaiting
  · exact ⟨rfl, rfl, h.onSession i _⟩
  · exact h.agree_callNext hb i m l left
  · exact .pure h _

theorem agree_advance (h : w.Alike f w') (hb : b.Follows f b') (p : Preference) (i : SessionId) :
    Agree f (Network.advance b p i w) (Network.advance b' p i w') := by
  rcases hs : w.sessions[i]? with _ | s
  · rw [advance_of_no_session b p hs, advance_of_no_session b' p (by rw [h.sessions_eq, hs])]
    exact .pure h _
  · rw [advance_of_session b p hs, advance_of_session b' p (by rw [h.sessions_eq, hs])]
    exact (h.agree_step hb p i s).within s.scope

theorem agree_perform (h : w.Alike f w') (hb : b.Follows f b') (a : NetworkAct ι) :
    Agree f (a.perform b w) (a.perform b' w') := by
  obtain c | d | ⟨p, i⟩ := a
  · rw [NetworkAct.perform, NetworkAct.perform]
    exact (h.agree_login_self c).bind fun _ _ _ hnext => .pure hnext _
  · obtain ⟨hfault, hdeed⟩ := h.agree_deed d
    show Agree f ((d.perform >>= fun _ => pure (d.fault? w)) w)
      ((d.perform >>= fun _ => pure (d.fault? w')) w')
    rw [hfault]
    exact hdeed.bind fun _ _ _ hnext => .pure hnext _
  · rw [NetworkAct.perform, NetworkAct.perform]
    exact (h.agree_advance hb p i).bind fun _ _ _ hnext => .pure hnext _

/-- Acts cannot tell networks apart that are alike. -/
theorem agree_performAll (h : w.Alike f w') (hb : b.Follows f b') (acts : List (NetworkAct ι)) :
    Agree f (NetworkAct.performAll b acts w) (NetworkAct.performAll b' acts w') := by
  induction acts generalizing w w' with
  | nil => exact .pure h _
  | cons a rest ih =>
    rw [NetworkAct.performAll, NetworkAct.performAll]
    refine (h.agree_perform hb a).bind fun fault _ _ hnext => ?_
    exact (ih hnext).bind fun _ _ _ hend => .pure hend _

end Network.Alike

end CommandBot
