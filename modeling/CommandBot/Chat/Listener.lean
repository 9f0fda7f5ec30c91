import CommandBot.Chat.Network

/-
  Listeners: what is called with each message of a session. A call remembers something, does some
  things to the network, and may panic behind them. A panic costs nothing but the rest of that
  call.
-/

namespace CommandBot

/-- What a listener does to the network; a listener is known by a name of type `ι`. -/
inductive Deed (ι : Type) where
  | send (c : Channel) (content : String)
  | log (e : Log.Event)
  | inject (g : GatewayId) (m : Message)
  | listen (i : SessionId) (l : ι)
  | shutdown (i : SessionId)
  | disconnect (g : GatewayId)

/-- What a call of a listener leads to. -/
structure Reaction (ι σ : Type) where
  memory : σ
  deeds : List (Deed ι) := []
  panics : Bool := false

/-- What each listener does with a message, given what is remembered. -/
abbrev Behavior (ι σ : Type) := ι → Message → σ → Reaction ι σ

variable {ι σ : Type}

/-- Does something to the network. -/
def Deed.perform : Deed ι → Exchange ι σ Unit
  | .send c content => modify fun w => (w.send c content).2
  | .log e => (Logged.log e : Logged _)
  | .inject g m => modify fun w => (w.inject g m).2
  | .listen i l => modify fun w => w.listen i l
  | .shutdown i => modify fun w => w.shutdown i
  | .disconnect g => fun w => do return ((), ← w.disconnect g)

namespace Reaction

/-- Nothing but what is remembered already. -/
def none (memory : σ) : Reaction ι σ := { memory }

/-- Lets a reaction happen; the answer is whether the call panicked. -/
def happen (r : Reaction ι σ) : Exchange ι σ Bool := do
  modify fun w => { w with memory := r.memory }
  r.deeds.forM Deed.perform
  return r.panics

end Reaction

/-- Calls a listener with a message; the answer is whether it panicked. -/
def Behavior.call (b : Behavior ι σ) (l : ι) (m : Message) : Exchange ι σ Bool := do
  (b l m (← get).memory).happen

end CommandBot
