import CommandBot.Chat.Message
import CommandBot.Log.Logged

/-
  Gateways and the sessions of clients that logged in through them. A session has a queue of
  messages; its stream ends when no gateway feeds it any more. What is done to a network is one of
  a few acts, each of which happens at once: `inject`, `send`, `disconnect`, `listen`, `shutdown`.
  `inject_eq_ok_iff` says that a message is accepted exactly where a gateway is connected.
-/

namespace CommandBot

/-- How a gateway answers who wants to connect. -/
inductive Manner where
  /-- with a session that messages can be injected into -/
  | loopback
  /-- with a session that some messages wait in already, and that may stay open after them -/
  | backlog (contents : List String) (staysOpen : Bool)
  /-- with a refusal, for a reason that may depend on the token -/
  | refusing (reason : String → String)

/-- The network side of clients. -/
structure Gateway where
  name : String
  manner : Manner
  /-- the session that is fed -/
  inbound : Option SessionId := none
  /-- the token of the latest session -/
  token : Option String := none
  /-- the replies that went out and were not taken yet -/
  replies : List Reply := []

/-- What the task of a session is doing. -/
inductive Phase (ι : Type) where
  | waiting
  /-- has a message, and some listeners still to call with it -/
  | handling (m : Message) (left : List ι)
  | ended
deriving DecidableEq, Repr

/-- The session of a client, with its listeners in the order of their registration. -/
structure Session (ι : Type) where
  gatewayName : String
  listeners : List ι
  queue : List Message := []
  /-- whether something besides gateways keeps the stream open -/
  staysOpen : Bool := false
  /-- whether the session was shut down or has ended -/
  isClosed : Bool := false
  phase : Phase ι := .waiting

/-- Gateways and sessions by their numbers, and what listeners remember. -/
structure Network (ι σ : Type) where
  gateways : List Gateway := []
  sessions : List (Session ι) := []
  /-- the gateway that clients use unless they choose another -/
  installed : Option GatewayId := none
  memory : σ

/-- What happens on a network. -/
abbrev Exchange (ι σ α : Type) := StateT (Network ι σ) Logged α

namespace Session

variable {ι : Type}

/-- A session for a reader. -/
def description (s : Session ι) : String :=
  Text.record "Client"
    [("gateway", Text.quote s.gatewayName), ("listeners", toString s.listeners.length),
     ("closed", Text.truth s.isClosed)]

/-- Whether the task of a session has ended. -/
def hasEnded (s : Session ι) : Bool :=
  match s.phase with
  | .ended => true
  | _ => false

end Session

namespace Network

variable {ι σ : Type}

/-! ## Views -/

/-- The network with a changed gateway. -/
def onGateway (w : Network ι σ) (g : GatewayId) (f : Gateway → Gateway) : Network ι σ :=
  { w with gateways := w.gateways.modify g f }

/-- The network with a changed session. -/
def onSession (w : Network ι σ) (i : SessionId) (f : Session ι → Session ι) : Network ι σ :=
  { w with sessions := w.sessions.modify i f }

/-- The session that a gateway feeds. -/
def inboundOf (w : Network ι σ) (g : GatewayId) : Option SessionId :=
  (w.gateways[g]?).bind Gateway.inbound

/-- Whether a session still takes messages. -/
def takesMessages (w : Network ι σ) (i : SessionId) : Bool :=
  (w.sessions[i]?).any fun s => !s.hasEnded

/-- Whether a gateway is connected: it feeds a session that takes messages. -/
def isConnected (w : Network ι σ) (g : GatewayId) : Bool :=
  (w.inboundOf g).any w.takesMessages

/-- Whether something keeps the stream of a session open. -/
def isFed (w : Network ι σ) (i : SessionId) : Bool :=
  (w.sessions[i]?).any Session.staysOpen || w.gateways.any fun g => g.inbound == some i

/-! ## Acts -/

/-- Gives a message to the session that a gateway feeds. -/
def inject (w : Network ι σ) (g : GatewayId) (m : Message) :
    Except ClientFault Unit × Network ι σ :=
  match w.inboundOf g with
  | none => (.error .closed, w)
  | some i =>
    if w.takesMessages i then
      (.ok (), w.onSession i fun s => { s with queue := s.queue ++ [m] })
    else (.error .closed, w)

/-- Sends a reply on a channel. -/
def send (w : Network ι σ) (c : Channel) (content : String) :
    Except ClientFault Unit × Network ι σ :=
  match c.check with
  | .error f => (.error f, w)
  | .ok g =>
    (.ok (), w.onGateway g fun gw => { gw with replies := gw.replies ++ [⟨c.name, content⟩] })

def disconnectedEvent : Log.Event where
  level := .debug
  target := "magicord_core::loopback"
  message := "Loopback session disconnected"

/-- Ends the feeding of a session by a gateway. -/
def disconnect (w : Network ι σ) (g : GatewayId) : Logged (Network ι σ) :=
  match w.inboundOf g with
  | none => pure w
  | some _ => do
    Logged.log disconnectedEvent
    return w.onGateway g fun gw => { gw with inbound := none }

/-- Registers a listener for the messages that a session takes from now on. -/
def listen (w : Network ι σ) (i : SessionId) (l : ι) : Network ι σ :=
  w.onSession i fun s => { s with listeners := s.listeners ++ [l] }

/-- Asks a session to end. -/
def shutdown (w : Network ι σ) (i : SessionId) : Network ι σ :=
  w.onSession i fun s => { s with isClosed := true }

/-- Takes the reply that has waited longest. -/
def takeReply (w : Network ι σ) (g : GatewayId) : Option Reply × Network ι σ :=
  match (w.gateways[g]?).bind fun gw => gw.replies.head? with
  | none => (none, w)
  | some r => (some r, w.onGateway g fun gw => { gw with replies := gw.replies.tail })

def installedEvent (name : String) : Log.Event where
  level := .debug
  target := "magicord_core::gateway"
  message := "Installing default gateway"
  fields := [("gateway", .quoted name)]

/-- The name of a gateway. -/
def nameOf (w : Network ι σ) (g : GatewayId) : String :=
  ((w.gateways[g]?).map Gateway.name).getD ""

/-- Has clients use a gateway unless they choose another. -/
def install (w : Network ι σ) (g : GatewayId) : Logged (Network ι σ) := do
  Logged.log (installedEvent (w.nameOf g))
  return { w with installed := some g }

/-- Opens a gateway. -/
def openGateway (w : Network ι σ) (g : Gateway) : GatewayId × Network ι σ :=
  (w.gateways.length, { w with gateways := w.gateways ++ [g] })

theorem inject_eq_ok_iff (w : Network ι σ) (g : GatewayId) (m : Message) :
    (w.inject g m).1 = .ok () ↔ w.isConnected g = true := by
  unfold inject isConnected
  split
  · simp [*]
  · split <;> simp_all

end Network

end CommandBot
