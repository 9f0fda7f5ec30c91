import CommandBot.Chat.Delivery

/-
  Clients: what is set before a login, and the login itself. A token is asked for before a gateway
  is, and a gateway is connected only when both are there; `login_of_noToken` and
  `login_of_noGateway` say that nothing happens otherwise. The text of a builder shows that it has
  a token, and not which.
-/

namespace CommandBot

variable {ι σ : Type}

/-- The messages that wait in a new session, and whether its stream stays open by itself. -/
structure Stream where
  queue : List Message := []
  staysOpen : Bool := false

namespace Gateway

def connectedEvent : Log.Event where
  level := .debug
  target := "magicord_core::loopback"
  message := "Loopback session connected"

/-- The channel of the messages that wait already. -/
def backlogChannel (g : GatewayId) : Channel := ⟨"backlog", some g⟩

/-- Connects a new session to the gateway with number `g`. -/
def connect (gw : Gateway) (g : GatewayId) (i : SessionId) (token : String) :
    Logged (Except ClientFault Stream × Gateway) :=
  match gw.manner with
  | .loopback => do
    Logged.log connectedEvent
    return (.ok {}, { gw with inbound := some i, token := some token })
  | .backlog contents staysOpen =>
    let messages := contents.map fun c => { content := c, channel := backlogChannel g }
    pure (.ok ⟨messages, staysOpen⟩, gw)
  | .refusing reason => pure (.error (.loginFailed (reason token)), gw)

end Gateway

/-- What is set for a client before it logs in. -/
structure ClientBuilder (ι : Type) where
  token : Option String := none
  gateway : Option GatewayId := none
  listeners : List ι := []

namespace ClientBuilder

/-- A builder that uses the gateway that is installed now. -/
def new (w : Network ι σ) : ClientBuilder ι := { gateway := w.installed }

def withGateway (c : ClientBuilder ι) (g : GatewayId) : ClientBuilder ι :=
  { c with gateway := some g }

def setToken (c : ClientBuilder ι) (token : String) : ClientBuilder ι :=
  { c with token := some token }

def listen (c : ClientBuilder ι) (l : ι) : ClientBuilder ι :=
  { c with listeners := c.listeners ++ [l] }

/-- A builder for a reader. -/
def description (c : ClientBuilder ι) (w : Network ι σ) : String :=
  Text.record "ClientBuilder"
    [("token", Text.optional (c.token.map fun _ => Text.quote "<redacted>")),
     ("gateway", Text.optional (c.gateway.map fun g => Text.quote (w.nameOf g))),
     ("listeners", toString c.listeners.length)]

def loggingInEvent (gateway : String) : Log.Event where
  level := .debug
  target := Session.target
  message := "Logging in"
  fields := [("gateway", .quoted gateway)]

def loggedInEvent (gateway : String) : Log.Event where
  level := .info
  target := Session.target
  message := "Logged in"
  fields := [("gateway", .quoted gateway)]

/-- The session of a client on a stream. -/
def session (c : ClientBuilder ι) (gw : Gateway) (s : Stream) : Session ι where
  gatewayName := gw.name
  listeners := c.listeners
  queue := s.queue
  staysOpen := s.staysOpen

/-- Connects through a gateway. -/
def enter (c : ClientBuilder ι) (token : String) (g : GatewayId) (gw : Gateway) :
    Exchange ι σ (Except ClientFault SessionId) := fun w => do
  Logged.log (loggingInEvent gw.name)
  let i := w.sessions.length
  match ← gw.connect g i token with
  | (.error f, gw') => return (.error f, w.onGateway g fun _ => gw')
  | (.ok stream, gw') => do
    Logged.log (loggedInEvent gw.name)
    let w := w.onGateway g fun _ => gw'
    return (.ok i, { w with sessions := w.sessions ++ [c.session gw stream] })

/-- Logs in; the answer is the number of the session. -/
def login (c : ClientBuilder ι) : Exchange ι σ (Except ClientFault SessionId) := do
  match c.token with
  | none => return .error .missingToken
  | some token =>
    let w ← get
    match c.gateway.bind fun g => (w.gateways[g]?).map (g, ·) with
    | none => return .error .noGateway
    | some (g, gw) => c.enter token g gw

theorem login_of_noToken (c : ClientBuilder ι) (w : Network ι σ) (h : c.token = none) :
    c.login w = pure (.error .missingToken, w) := by
  simp [login, h]
  rfl

theorem login_of_noGateway (c : ClientBuilder ι) (w : Network ι σ) {token : String}
    (ht : c.token = some token) (hg : c.gateway = none) :
    c.login w = pure (.error .noGateway, w) := by
  simp [login, ht, hg]
  rfl

end ClientBuilder

end CommandBot
