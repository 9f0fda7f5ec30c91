import CommandBot.Bot.Running
import CommandBot.Proofs.ActOutputs
import Mathlib.Logic.Function.Basic

/-
  Clients that are prepared and log in, while other clients are and gateways are installed. A
  `Lobby` is a network with the builders that are not used up yet, and `LobbyAct` is what is done
  there. What a builder holds comes of what was done to it since it was made and of the gateway that
  was installed then (`builder_run`, `entrance_run`); what a login makes of that is `LogsIn`.
  `login_prepared` puts the two together, for logins and for dispatchers that run.
-/

namespace CommandBot

variable {ι σ : Type}

/-! ## Logins -/

/-- What a login on the network `w` leads to, by the token, the gateway and the listeners that the
client has. A gateway is asked once, and only if there is a token for it. -/
inductive LogsIn (w : Network ι σ) : Option String → Option GatewayId → List ι →
    Logged (Except ClientFault SessionId × Network ι σ) → Prop
  | missingToken (gateway : Option GatewayId) (listeners : List ι) :
    LogsIn w none gateway listeners (pure (.error .missingToken, w))
  | noGateway (token : String) (listeners : List ι) :
    LogsIn w (some token) none listeners (pure (.error .noGateway, w))
  | refused {token : String} {g : GatewayId} {listeners : List ι} {gw : Gateway} {f : ClientFault}
    {r : Logged (Except ClientFault SessionId × Network ι σ)} (hgw : w.gateways[g]? = some gw)
    (hconnect : (gw.connect g w.sessions.length token).value.1 = .error f)
    (value_eq : r.value = (.error f, w))
    (outputs_eq : r.outputs = .event (ClientBuilder.loggingInEvent gw.name) ::
      (gw.connect g w.sessions.length token).outputs) :
    LogsIn w (some token) (some g) listeners r
  | opened {token : String} {g : GatewayId} {listeners : List ι} {gw gw' : Gateway}
    {stream : Stream} {r : Logged (Except ClientFault SessionId × Network ι σ)}
    (hgw : w.gateways[g]? = some gw)
    (hconnect : (gw.connect g w.sessions.length token).value = (.ok stream, gw'))
    (answer_eq : r.value.1 = .ok w.sessions.length)
    (sessions_eq : r.value.2.sessions = w.sessions ++
      [{ gatewayName := gw.name, listeners, queue := stream.queue, staysOpen := stream.staysOpen }])
    (gateway_eq : r.value.2.gateways[g]? = some gw')
    (others_eq : ∀ g' ≠ g, r.value.2.gateways[g']? = w.gateways[g']?)
    (memory_eq : r.value.2.memory = w.memory)
    (outputs_eq : r.outputs = .event (ClientBuilder.loggingInEvent gw.name) ::
      (gw.connect g w.sessions.length token).outputs ++
        [.event (ClientBuilder.loggedInEvent gw.name)]) :
    LogsIn w (some token) (some g) listeners r

namespace ClientBuilder

theorem outputs_enter (c : ClientBuilder ι) (token : String) (g : GatewayId) (gw : Gateway)
    (w : Network ι σ) :
    (c.enter token g gw w).outputs = .event (loggingInEvent gw.name) ::
      ((gw.connect g w.sessions.length token).outputs ++
        match (gw.connect g w.sessions.length token).value.1 with
        | .error _ => []
        | .ok _ => [.event (loggedInEvent gw.name)]) := by
  rw [enter, Logged.outputs_bind, Logged.outputs_bind]
  generalize gw.connect g w.sessions.length token = answer
  obtain ⟨⟨outcome, gw'⟩, outputs⟩ := answer
  cases outcome <;> rfl

/-- A client whose gateway is there logs in with what it holds. -/
theorem logsIn (c : ClientBuilder ι) (w : Network ι σ)
    (hthere : ∀ g, c.gateway = some g → g < w.gateways.length) :
    LogsIn w c.token c.gateway c.listeners (c.login w) := by
  cases ht : c.token with
  | none =>
    rw [c.login_of_noToken w ht]
    exact .missingToken _ _
  | some token =>
    cases hc : c.gateway with
    | none =>
      rw [c.login_of_noGateway w ht hc]
      exact .noGateway _ _
    | some g =>
      obtain ⟨gw, hgw⟩ : ∃ gw, w.gateways[g]? = some gw :=
        ⟨_, List.getElem?_eq_getElem (hthere g hc)⟩
      have hvalue := c.value_enter token g gw w
      have houtputs := c.outputs_enter token g gw w
      rw [c.login_of_gateway w ht hc hgw]
      rcases gw.connect_cases g w.sessions.length token with ⟨f, hf⟩ | ⟨stream, gw', hok, -⟩
      · rw [hf] at hvalue houtputs
        dsimp only at hvalue houtputs
        rw [Network.onGateway_eq_self hgw] at hvalue
        rw [List.append_nil] at houtputs
        exact .refused hgw (congrArg Prod.fst hf) hvalue houtputs
      · rw [hok] at hvalue houtputs
        refine .opened hgw hok (congrArg Prod.fst hvalue) ?_ ?_ ?_ ?_ houtputs
        · rw [hvalue]
          rfl
        · rw [hvalue]
          exact (Network.gateway_onGateway w g _).trans (congrArg (Option.map _) hgw)
        · intro g' hg'
          rw [hvalue]
          exact Network.gateway_onGateway_of_ne w hg' _
        · rw [hvalue]
          rfl

end ClientBuilder

namespace Dispatcher

/-- What running a dispatcher leads to, by the gateway and the listeners of the builder. Either its
token is not there, and nothing but an event comes of it, or it logs in with its own token. -/
inductive RunsWith (u : Dispatcher) (place : String) (env : Environment) (l : ι)
    (w : Network ι σ) (gateway : Option GatewayId) (listeners : List ι) :
    Logged (Except ClientFault SessionId × Network ι σ) → Prop
  | tokenUnset {name : String} (hsource : u.token = .env name) (hunset : env.lookup name = none) :
    RunsWith u place env l w gateway listeners
      ⟨(.error (.tokenUnset name), w), [.event (u.runningEvent place)]⟩
  | resolved {token : String} {r : Logged (Except ClientFault SessionId × Network ι σ)}
    (htoken : u.token.resolve env = .ok token)
    (hlogin : LogsIn w (some token) gateway (listeners ++ [l]) r) :
    RunsWith u place env l w gateway listeners
      ⟨r.value, .event (u.runningEvent place) :: r.outputs⟩

theorem runsWith (u : Dispatcher) (place : String) (env : Environment) (l : ι)
    (c : ClientBuilder ι) (w : Network ι σ)
    (hthere : ∀ g, c.gateway = some g → g < w.gateways.length) :
    RunsWith u place env l w c.gateway c.listeners (u.runWith place env l c w) := by
  cases htoken : u.token.resolve env with
  | ok token =>
    have hrun : u.runWith place env l c w =
        ⟨(((c.setToken token).listen l).login w).value,
          .event (u.runningEvent place) :: (((c.setToken token).listen l).login w).outputs⟩ := by
      unfold runWith
      rw [htoken]
      rfl
    rw [hrun]
    exact .resolved htoken (((c.setToken token).listen l).logsIn w hthere)
  | error f =>
    have hrun : u.runWith place env l c w =
        ⟨(.error f, w), [.event (u.runningEvent place)]⟩ := by
      unfold runWith
      rw [htoken]
      rfl
    rw [hrun]
    cases hsource : u.token with
    | literal token =>
      rw [hsource] at htoken
      cases htoken
    | env name =>
      rw [hsource, TokenSource.resolve] at htoken
      cases hunset : env.lookup name with
      | some token =>
        rw [hunset] at htoken
        cases htoken
      | none =>
        rw [hunset] at htoken
        cases htoken
        exact .tokenUnset hsource hunset

end Dispatcher

/-! ## What is done before logins -/

/-- What is done where there are `n` gateways: one is installed, something is done to a builder, a
builder is used up, or something happens on the network. -/
inductive LobbyAct (n : Nat) (ι : Type) where
  | install (g : Fin n)
  | build (k : Nat)
  | withGateway (k : Nat) (g : Fin n)
  | setToken (k : Nat) (token : String)
  | listen (k : Nat) (l : ι)
  | login (k : Nat)
  | runWith (k : Nat) (u : Dispatcher) (place : String) (env : Environment) (l : ι)
  | deed (d : Deed ι)
  | pump (p : Preference) (i : SessionId)

namespace LobbyAct

variable {n : Nat}

/-- The gateway that an act installs. -/
def installed? : LobbyAct n ι → Option (Fin n)
  | .install g => some g
  | _ => none

/-- The gateway that an act gives to a builder. -/
def gateway? (k : Nat) : LobbyAct n ι → Option (Fin n)
  | .withGateway j g => if j = k then some g else none
  | _ => none

/-- The token that an act sets for a builder. -/
def token? (k : Nat) : LobbyAct n ι → Option String
  | .setToken j token => if j = k then some token else none
  | _ => none

/-- The listener that an act adds to a builder. -/
def listener? (k : Nat) : LobbyAct n ι → Option ι
  | .listen j l => if j = k then some l else none
  | _ => none

/-- What the last of some acts gives that gives something. -/
def last? {α : Type} (f : LobbyAct n ι → Option α) (acts : List (LobbyAct n ι)) : Option α :=
  acts.reverse.findSome? f

theorem last?_cons {α : Type} (f : LobbyAct n ι → Option α) (a : LobbyAct n ι)
    (acts : List (LobbyAct n ι)) : last? f (a :: acts) = (last? f acts).or (f a) := by
  rw [last?, last?, List.reverse_cons, List.findSome?_append, List.findSome?_singleton]

/-- Whether an act makes a builder anew or uses it up. -/
def replaces (k : Nat) : LobbyAct n ι → Bool
  | .build j => j == k
  | .login j => j == k
  | .runWith j _ _ _ _ => j == k
  | _ => false

end LobbyAct

/-- A network, and the builders that are there, by their numbers. -/
structure Lobby (ι σ : Type) where
  network : Network ι σ
  builders : Nat → Option (ClientBuilder ι) := fun _ => none

namespace Lobby

variable {n : Nat}

/-- The lobby of fresh gateways, of which none is installed. -/
def start (gateways : List (String × Manner)) (memory : σ) : Lobby ι σ where
  network := (Course.start gateways memory).network

/-- What using up a builder leads to, if it is there. -/
def logIn (lobby : Lobby ι σ) (k : Nat)
    (how : ClientBuilder ι → Exchange ι σ (Except ClientFault SessionId)) :
    Option (Logged (Except ClientFault SessionId × Network ι σ)) :=
  (lobby.builders k).map fun c => how c lobby.network

/-- After a builder was used up. -/
def consume (lobby : Lobby ι σ) (k : Nat)
    (how : ClientBuilder ι → Exchange ι σ (Except ClientFault SessionId)) : Lobby ι σ :=
  match lobby.logIn k how with
  | none => lobby
  | some r => ⟨r.value.2, Function.update lobby.builders k none⟩

/-- After something was done to a builder. -/
def onBuilder (lobby : Lobby ι σ) (k : Nat) (f : ClientBuilder ι → ClientBuilder ι) : Lobby ι σ :=
  { lobby with builders := Function.update lobby.builders k ((lobby.builders k).map f) }

def act (b : Behavior ι σ) (lobby : Lobby ι σ) : LobbyAct n ι → Lobby ι σ
  | .install g => { lobby with network := (lobby.network.install g).value }
  | .build k =>
    { lobby with builders := Function.update lobby.builders k (some (.new lobby.network)) }
  | .withGateway k g => lobby.onBuilder k (·.withGateway g)
  | .setToken k token => lobby.onBuilder k (·.setToken token)
  | .listen k l => lobby.onBuilder k (·.listen l)
  | .login k => lobby.consume k ClientBuilder.login
  | .runWith k u place env l => lobby.consume k (u.runWith place env l)
  | .deed d => { lobby with network := d.after lobby.network }
  | .pump p i => { lobby with network := lobby.network.stepped b p i }

/-- After some acts, one after the other. -/
def run (b : Behavior ι σ) (lobby : Lobby ι σ) (acts : List (LobbyAct n ι)) : Lobby ι σ :=
  acts.foldl (act b) lobby

end Lobby

/-! ## The gateways that clients find -/

namespace Network

/-- The gateway that is installed, and how many gateways there are. -/
def entrance (w : Network ι σ) : Option GatewayId × Nat := (w.installed, w.gateways.length)

theorem entrance_onSession (w : Network ι σ) (i : SessionId) (f : Session ι → Session ι) :
    (w.onSession i f).entrance = w.entrance := rfl

theorem entrance_onGateway (w : Network ι σ) (g : GatewayId) (f : Gateway → Gateway) :
    (w.onGateway g f).entrance = w.entrance :=
  congrArg (Prod.mk w.installed) (List.length_modify _ _ _)

theorem entrance_after (d : Deed ι) (w : Network ι σ) : (d.after w).entrance = w.entrance := by
  rcases d.after_cases w with h | ⟨i, f, h⟩ | ⟨g, f, h⟩
  · rw [h]
  · rw [h, entrance_onSession]
  · rw [h, entrance_onGateway]

theorem entrance_deeds (c : Course ι σ) (ds : List (Deed ι)) :
    (c.deeds ds).network.entrance = c.network.entrance := by
  induction ds generalizing c with
  | nil => rfl
  | cons d ds ih => exact (ih (c.deed d)).trans (entrance_after d c.network)

theorem entrance_stepped (b : Behavior ι σ) (p : Preference) (i : SessionId) (w : Network ι σ) :
    (w.stepped b p i).entrance = w.entrance := by
  have hstep := Course.pumped b p i ⟨w, []⟩
  have hnetwork : w.stepped b p i = (Course.pump b p i ⟨w, []⟩).network := rfl
  rw [hnetwork]
  generalize Course.pump b p i ⟨w, []⟩ = c at hstep ⊢
  cases hstep with
  | idle => rfl
  | called hs hp => exact entrance_deeds _ _
  | finished hs hp => rfl
  | took hs hp hq hopen => rfl
  | ended hs hp hend => rfl

theorem entrance_login (c : ClientBuilder ι) (w : Network ι σ) :
    (c.login w).value.2.entrance = w.entrance := by
  have hstep := Course.loggedIn c ⟨w, []⟩
  have hnetwork : (c.login w).value.2 = (Course.login ⟨w, []⟩ c).network := rfl
  rw [hnetwork]
  generalize Course.login ⟨w, []⟩ c = course at hstep ⊢
  cases hstep with
  | failed => rfl
  | opened hgw hopens => exact entrance_onGateway w _ _

theorem entrance_runWith (u : Dispatcher) (place : String) (env : Environment) (l : ι)
    (c : ClientBuilder ι) (w : Network ι σ) :
    (u.runWith place env l c w).value.2.entrance = w.entrance := by
  unfold Dispatcher.runWith
  cases u.token.resolve env with
  | error f => rfl
  | ok token => exact entrance_login _ w

end Network

namespace Lobby

open LobbyAct

variable {n : Nat} (b : Behavior ι σ)

theorem entrance_consume (lobby : Lobby ι σ) (k : Nat)
    {how : ClientBuilder ι → Exchange ι σ (Except ClientFault SessionId)}
    (hhow : ∀ c w, (how c w).value.2.entrance = w.entrance) :
    (lobby.consume k how).network.entrance = lobby.network.entrance := by
  rw [consume, logIn]
  cases lobby.builders k with
  | none => rfl
  | some c => exact hhow c lobby.network

/-- An act installs its gateway or leaves the one that is installed, and there are as many gateways
afterwards. -/
theorem entrance_act (lobby : Lobby ι σ) (a : LobbyAct n ι) :
    (lobby.act b a).network.entrance =
      ((a.installed?.map Fin.val).or lobby.network.installed, lobby.network.gateways.length) := by
  cases a with
  | install g => rfl
  | build k => rfl
  | withGateway k g => rfl
  | setToken k token => rfl
  | listen k l => rfl
  | login k => exact entrance_consume lobby k Network.entrance_login
  | runWith k u place env l =>
    exact entrance_consume lobby k (Network.entrance_runWith u place env l)
  | deed d => exact Network.entrance_after d lobby.network
  | pump p i => exact Network.entrance_stepped b p i lobby.network

/-- The gateway that was installed last is installed. -/
theorem entrance_run (lobby : Lobby ι σ) (acts : List (LobbyAct n ι)) :
    (lobby.run b acts).network.entrance =
      (((last? installed? acts).map Fin.val).or lobby.network.installed,
        lobby.network.gateways.length) := by
  induction acts generalizing lobby with
  | nil => rfl
  | cons a acts ih =>
    obtain ⟨hinstalled, hlength⟩ := Prod.mk.inj (entrance_act b lobby a)
    have hrun : lobby.run b (a :: acts) = (lobby.act b a).run b acts := rfl
    rw [hrun, ih, hinstalled, hlength, last?_cons, Option.map_or, Option.or_assoc]

/-! ## What builders hold -/

theorem builders_onBuilder (lobby : Lobby ι σ) (j k : Nat) (f : ClientBuilder ι → ClientBuilder ι) :
    (lobby.onBuilder j f).builders k =
      (lobby.builders k).map fun c => if j = k then f c else c := by
  by_cases h : j = k
  · subst h
    simp only [if_true]
    exact Function.update_self j _ lobby.builders
  · simp only [if_neg h, Option.map_id']
    exact Function.update_of_ne (Ne.symm h) _ lobby.builders

theorem builders_consume_of_ne (lobby : Lobby ι σ) {j k : Nat} (h : k ≠ j)
    (how : ClientBuilder ι → Exchange ι σ (Except ClientFault SessionId)) :
    (lobby.consume j how).builders k = lobby.builders k := by
  rw [consume]
  split
  · rfl
  · exact Function.update_of_ne h none lobby.builders

end Lobby

namespace ClientBuilder

open LobbyAct

variable {n : Nat}

/-- A builder after an act that does not replace it. -/
def after (c : ClientBuilder ι) (k : Nat) (a : LobbyAct n ι) : ClientBuilder ι where
  token := (a.token? k).or c.token
  gateway := ((a.gateway? k).map Fin.val).or c.gateway
  listeners := c.listeners ++ (a.listener? k).toList

theorem after_eq_self (c : ClientBuilder ι) {k : Nat} {a : LobbyAct n ι} (ht : a.token? k = none)
    (hg : a.gateway? k = none) (hl : a.listener? k = none) : c.after k a = c := by
  rw [after, ht, hg, hl, Option.toList_none, List.append_nil]
  rfl

theorem after_withGateway (c : ClientBuilder ι) (j k : Nat) (g : Fin n) :
    c.after k (.withGateway j g) = if j = k then c.withGateway g else c := by
  split
  · rw [after, gateway?, if_pos ‹_›]
    exact congrArg (ClientBuilder.mk _ _) (List.append_nil _)
  · exact after_eq_self c rfl (if_neg ‹_›) rfl

theorem after_setToken (c : ClientBuilder ι) (j k : Nat) (token : String) :
    c.after k (.setToken j token : LobbyAct n ι) = if j = k then c.setToken token else c := by
  split
  · rw [after, token?, if_pos ‹_›]
    exact congrArg (ClientBuilder.mk _ _) (List.append_nil _)
  · exact after_eq_self c (if_neg ‹_›) rfl rfl

theorem after_listen (c : ClientBuilder ι) (j k : Nat) (l : ι) :
    c.after k (.listen j l : LobbyAct n ι) = if j = k then c.listen l else c := by
  split
  · rw [after, listener?, if_pos ‹_›]
    rfl
  · exact after_eq_self c rfl rfl (if_neg ‹_›)

/-- A builder after some acts has what it was given last, and all listeners. -/
theorem foldl_after (c : ClientBuilder ι) (k : Nat) (acts : List (LobbyAct n ι)) :
    acts.foldl (·.after k ·) c =
      { token := (last? (token? k) acts).or c.token
        gateway := ((last? (gateway? k) acts).map Fin.val).or c.gateway
        listeners := c.listeners ++ acts.filterMap (listener? k) } := by
  induction acts generalizing c with
  | nil => exact congrArg (ClientBuilder.mk _ _) (List.append_nil _).symm
  | cons a acts ih =>
    have hlisteners : (a :: acts).filterMap (listener? k) =
        (a.listener? k).toList ++ acts.filterMap (listener? k) := by
      cases ha : a.listener? k with
      | none => exact List.filterMap_cons_none ha
      | some l => exact List.filterMap_cons_some ha
    rw [List.foldl_cons, ih, after, last?_cons, last?_cons, hlisteners, Option.map_or,
      Option.or_assoc, Option.or_assoc, List.append_assoc]

end ClientBuilder

namespace Lobby

variable {n : Nat} (b : Behavior ι σ)

/-- An act on a builder that is there changes what it holds and nothing more, and no other act
changes it, unless it is replaced. -/
theorem builder_act (lobby : Lobby ι σ) {k : Nat} {a : LobbyAct n ι} (ha : a.replaces k = false) :
    (lobby.act b a).builders k = (lobby.builders k).map (·.after k a) := by
  have hself : a.token? k = none → a.gateway? k = none → a.listener? k = none →
      lobby.builders k = (lobby.builders k).map (·.after k a) := by
    intro ht hg hl
    have hafter : (fun c : ClientBuilder ι => c.after k a) = id :=
      funext fun c => c.after_eq_self ht hg hl
    rw [hafter, Option.map_id, id]
  cases a with
  | install g => exact hself rfl rfl rfl
  | build j =>
    exact (Function.update_of_ne (Ne.symm (ne_of_beq_false ha)) _ _).trans (hself rfl rfl rfl)
  | withGateway j g =>
    simp only [ClientBuilder.after_withGateway]
    exact builders_onBuilder lobby j k _
  | setToken j token =>
    simp only [ClientBuilder.after_setToken]
    exact builders_onBuilder lobby j k _
  | listen j l =>
    simp only [ClientBuilder.after_listen]
    exact builders_onBuilder lobby j k _
  | login j =>
    exact (builders_consume_of_ne lobby (Ne.symm (ne_of_beq_false ha)) _).trans (hself rfl rfl rfl)
  | runWith j u place env l =>
    exact (builders_consume_of_ne lobby (Ne.symm (ne_of_beq_false ha)) _).trans (hself rfl rfl rfl)
  | deed d => exact hself rfl rfl rfl
  | pump p i => exact hself rfl rfl rfl

/-- What a builder holds after some acts that do not replace it. -/
theorem builder_run {lobby : Lobby ι σ} {k : Nat} {c : ClientBuilder ι} {acts : List (LobbyAct n ι)}
    (hacts : ∀ a ∈ acts, a.replaces k = false) (hc : lobby.builders k = some c) :
    (lobby.run b acts).builders k = some (acts.foldl (·.after k ·) c) := by
  induction acts generalizing lobby c with
  | nil => exact hc
  | cons a acts ih =>
    refine ih (fun a' ha' => hacts a' (List.mem_cons_of_mem a ha')) ?_
    rw [builder_act b lobby (hacts a List.mem_cons_self), hc]
    rfl

/-! ## Prepared logins -/

open LobbyAct

/-- A builder that was made after the acts `before`, and not replaced since, logs in with the token
that it was given last, through the gateway that it was given last or else the one that was
installed when it was made, and with all its listeners. Running a dispatcher with it takes the
dispatcher's token instead and adds its listener. -/
theorem login_prepared (gateways : List (String × Manner)) (memory : σ) (b : Behavior ι σ)
    (before ops : List (LobbyAct gateways.length ι)) (k : Nat)
    (hops : ∀ a ∈ ops, a.replaces k = false) :
    let lobby := (start gateways memory).run b (before ++ .build k :: ops)
    let token := last? (token? k) ops
    let gateway := ((last? (gateway? k) ops).or (last? installed? before)).map Fin.val
    let listeners := ops.filterMap (listener? k)
    (∃ r, lobby.logIn k ClientBuilder.login = some r ∧
        LogsIn lobby.network token gateway listeners r ∧
        (lobby.act b (.login k : LobbyAct gateways.length ι)).network = r.value.2) ∧
      ∀ u place env l, ∃ r, lobby.logIn k (u.runWith place env l) = some r ∧
        u.RunsWith place env l lobby.network gateway listeners r ∧
        (lobby.act b (.runWith k u place env l : LobbyAct gateways.length ι)).network =
          r.value.2 := by
  intro lobby token gateway listeners
  let made := ((start gateways memory).run b before).act b
    (.build k : LobbyAct gateways.length ι)
  have hlobby : lobby = made.run b ops := List.foldl_append
  have hmade : made.builders k = some (.new made.network) := Function.update_self k _ _
  have hinstalled : made.network.installed = (last? installed? before).map Fin.val := by
    have hbefore := congrArg Prod.fst (entrance_run b (start gateways memory) before)
    rwa [show (start gateways memory : Lobby ι σ).network.installed = none from rfl,
      Option.or_none] at hbefore
  have hlength : lobby.network.gateways.length = gateways.length := by
    have hall := congrArg Prod.snd
      (entrance_run b (start gateways memory) (before ++ .build k :: ops))
    exact hall.trans (List.length_map _)
  have hbuilder : lobby.builders k = some ⟨token, gateway, listeners⟩ := by
    rw [hlobby, builder_run b hops hmade, ClientBuilder.foldl_after, ClientBuilder.new, hinstalled,
      Option.or_none, ← Option.map_or, List.nil_append]
  have hthere : ∀ g, gateway = some g → g < lobby.network.gateways.length := by
    intro g hg
    obtain ⟨g', -, rfl⟩ := Option.map_eq_some_iff.mp hg
    rw [hlength]
    exact g'.isLt
  have hlogIn : ∀ how, lobby.logIn k how =
      some (how ⟨token, gateway, listeners⟩ lobby.network) := by
    intro how
    rw [logIn, hbuilder]
    rfl
  have hconsume : ∀ how, (lobby.consume k how).network =
      (how ⟨token, gateway, listeners⟩ lobby.network).value.2 := by
    intro how
    rw [consume, hlogIn]
  refine ⟨⟨_, hlogIn _, ?_, hconsume _⟩, fun u place env l => ⟨_, hlogIn _, ?_, hconsume _⟩⟩
  · exact ClientBuilder.logsIn ⟨token, gateway, listeners⟩ lobby.network hthere
  · exact u.runsWith place env l ⟨token, gateway, listeners⟩ lobby.network hthere

/-- The second of two gateways is installed when a builder is made, and the first one afterwards. -/
theorem login_prepared_between :
    let gateways : List (String × Manner) :=
      [("loopback", .loopback), ("backlog", .backlog ["!ping"] false)]
    let first : Fin gateways.length := ⟨0, Nat.zero_lt_two⟩
    let second : Fin gateways.length := ⟨1, Nat.one_lt_two⟩
    let ops : List (LobbyAct gateways.length Bool) :=
      [.setToken 0 "a", .install first, .listen 0 true, .setToken 1 "c", .setToken 0 "b",
        .listen 0 false]
    let lobby := (start gateways ()).run .idle ([.build 1, .install second] ++ .build 0 :: ops)
    (∀ a ∈ ops, a.replaces 0 = false) ∧ lobby.network.installed = some first.val ∧
      ∃ r, lobby.logIn 0 ClientBuilder.login = some r ∧ r.value.1 = .ok 0 ∧
        LogsIn lobby.network (some "b") (some second.val) [true, false] r := by
  intro gateways first second ops lobby
  have hops : ∀ a ∈ ops, a.replaces 0 = false := by simp [ops, replaces]
  obtain ⟨⟨r, hr, hlogin, -⟩, -⟩ :=
    login_prepared gateways () .idle [.build 1, .install second] ops 0 hops
  refine ⟨hops, rfl, r, hr, ?_, hlogin⟩
  have hanswer : (lobby.logIn 0 ClientBuilder.login).map (·.value.1) = some (.ok 0) := rfl
  rw [show lobby.logIn 0 ClientBuilder.login = some r from hr] at hanswer
  exact Option.some.inj hanswer

end Lobby

end CommandBot
