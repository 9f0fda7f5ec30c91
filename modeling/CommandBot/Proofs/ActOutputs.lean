import CommandBot.Proofs.NetworkHistory

/-
  Acts on a network, with what they answer and put out. Whoever acts is told of a fault, and what is
  logged comes in the order in which it happens. All that a step of a task does with listeners is
  `callNext`, which is a reaction and, behind it, a report if the call panicked.
-/

namespace CommandBot

variable {ι σ : Type}

/-! ## Exchanges -/

namespace Exchange

variable {α β : Type}

theorem value_bind (m : Exchange ι σ α) (f : α → Exchange ι σ β) (w : Network ι σ) :
    ((m >>= f) w).value = (f (m w).value.1 (m w).value.2).value := rfl

theorem outputs_bind (m : Exchange ι σ α) (f : α → Exchange ι σ β) (w : Network ι σ) :
    ((m >>= f) w).outputs = (m w).outputs ++ (f (m w).value.1 (m w).value.2).outputs := rfl

end Exchange

/-! ## Acts -/

/-- Why something was refused, if it was. -/
def ClientFault.of? {α : Type} : Except ClientFault α → Option ClientFault
  | .ok _ => none
  | .error f => some f

/-- Why a deed is refused, if it is. -/
def Deed.fault? (w : Network ι σ) : Deed ι → Option ClientFault
  | .send c content => ClientFault.of? (w.send c content).1
  | .inject g m => ClientFault.of? (w.inject g m).1
  | .log _ => none
  | .listen _ _ => none
  | .shutdown _ => none
  | .disconnect _ => none

namespace NetworkAct

/-- Lets an act happen; the answer is why it was refused, if it was. -/
def perform (b : Behavior ι σ) : NetworkAct ι → Exchange ι σ (Option ClientFault)
  | .login c => do return ClientFault.of? (← c.login)
  | .deed d => do
    let fault := d.fault? (← get)
    d.perform
    return fault
  | .pump p i => do
    Network.advance b p i
    return none

/-- Lets some acts happen, one after the other. -/
def performAll (b : Behavior ι σ) : List (NetworkAct ι) → Exchange ι σ (List (Option ClientFault))
  | [] => return []
  | a :: rest => do
    let fault ← a.perform b
    let faults ← performAll b rest
    return fault :: faults

theorem outputs_pump (b : Behavior ι σ) (p : Preference) (i : SessionId) (w : Network ι σ) :
    ((NetworkAct.pump p i).perform b w).outputs = (Network.advance b p i w).outputs := by
  rw [perform, Exchange.outputs_bind]
  exact List.append_nil _

theorem value_performAll_cons (b : Behavior ι σ) (a : NetworkAct ι) (rest : List (NetworkAct ι))
    (w : Network ι σ) :
    (performAll b (a :: rest) w).value =
      ((a.perform b w).value.1 :: (performAll b rest (a.perform b w).value.2).value.1,
        (performAll b rest (a.perform b w).value.2).value.2) := rfl

theorem outputs_performAll_cons (b : Behavior ι σ) (a : NetworkAct ι) (rest : List (NetworkAct ι))
    (w : Network ι σ) :
    (performAll b (a :: rest) w).outputs =
      (a.perform b w).outputs ++ (performAll b rest (a.perform b w).value.2).outputs := by
  rw [performAll, Exchange.outputs_bind, Exchange.outputs_bind]
  exact congrArg _ (List.append_nil _)

end NetworkAct

/-! ## Logins -/

namespace ClientBuilder

/-- With a token and a gateway that is there a client enters. -/
theorem login_of_gateway (c : ClientBuilder ι) (w : Network ι σ) {token : String} {g : GatewayId}
    {gw : Gateway} (ht : c.token = some token) (hc : c.gateway = some g)
    (hg : w.gateways[g]? = some gw) : c.login w = c.enter token g gw w := by
  simp only [login, ht, bind, StateT.bind, get, getThe, MonadStateOf.get, StateT.get, pure, hc,
    Option.bind, hg, Option.map]
  rfl

theorem login_of_unknown (c : ClientBuilder ι) (w : Network ι σ) {token : String} {g : GatewayId}
    (ht : c.token = some token) (hc : c.gateway = some g) (hg : w.gateways[g]? = none) :
    c.login w = pure (.error .noGateway, w) := by
  simp only [login, ht, bind, StateT.bind, get, getThe, MonadStateOf.get, StateT.get, pure, hc,
    Option.bind, hg, Option.map]
  rfl

end ClientBuilder

/-! ## Calls -/

namespace Reaction

/-- What comes of the deeds of a reaction. -/
def effects (r : Reaction ι σ) (w : Network ι σ) : Logged (PUnit × Network ι σ) :=
  r.deeds.forM Deed.perform { w with memory := r.memory }

theorem happen_eq (r : Reaction ι σ) (w : Network ι σ) :
    r.happen w = ⟨(r.panics, (r.effects w).value.2), (r.effects w).outputs⟩ := by
  have houtputs : (r.happen w).outputs = (r.effects w).outputs := by
    rw [happen, Exchange.outputs_bind, Exchange.outputs_bind]
    exact List.append_nil _
  rw [← houtputs]
  rfl

end Reaction

namespace Network

theorem advance_of_no_session (b : Behavior ι σ) (p : Preference) {i : SessionId}
    {w : Network ι σ} (h : w.sessions[i]? = none) : advance b p i w = pure ((), w) := by
  have hget : (w.sessions[i]?) = none := h
  simp only [advance, bind, StateT.bind, get, getThe, MonadStateOf.get, StateT.get, pure]
  simp only [hget]
  rfl

theorem advance_of_session (b : Behavior ι σ) (p : Preference) {i : SessionId} {w : Network ι σ}
    {s : Session ι} (h : w.sessions[i]? = some s) :
    advance b p i w = Logged.within s.scope (s.step b p i w) := by
  have hget : (w.sessions[i]?) = some s := h
  simp only [advance, bind, StateT.bind, get, getThe, MonadStateOf.get, StateT.get, pure]
  simp only [hget]
  rfl

end Network

namespace Session

/-- A call is a reaction, with a report behind it if it panicked. -/
theorem callNext_eq (b : Behavior ι σ) (i : SessionId) (m : Message) (l : ι) (left : List ι)
    (w : Network ι σ) :
    let r := b l m w.memory
    let after := r.effects (w.onSession i fun s => { s with phase := .handling m left })
    callNext b i m l left w =
      ⟨((), after.value.2),
        after.outputs ++ if r.panics then [.event (panickedEvent m)] else []⟩ := by
  intro r after
  have hcall : b.call l m (w.onSession i fun s => { s with phase := .handling m left }) =
      ⟨(r.panics, after.value.2), after.outputs⟩ := r.happen_eq _
  have hnext : callNext b i m l left w =
      (b.call l m (w.onSession i fun s => { s with phase := .handling m left })) >>= fun answer =>
        ((if answer.1 then (Logged.log (panickedEvent m) : Logged _) else pure () :
          Exchange ι σ Unit)) answer.2 := rfl
  rw [hnext, hcall]
  cases r.panics <;> rfl

end Session

end CommandBot
