import CommandBot.Text.Quoted
import CommandBot.Text.Record

/-
  Messages, the channels that they come in on, and the replies that go back. A channel feeds the
  queue of one gateway's replies; where there is no such gateway, nothing can be sent.
-/

namespace CommandBot

/-- The number of a gateway, in the order in which gateways were opened. -/
abbrev GatewayId := Nat

/-- The number of a session, in the order in which sessions were opened. -/
abbrev SessionId := Nat

/-- Why a client cannot do something. -/
inductive ClientFault where
  | noGateway
  | missingToken
  | tokenUnset (variable_ : String)
  | loginFailed (reason : String)
  | sendFailed (channel : String)
  | closed
deriving DecidableEq, Repr

def ClientFault.message : ClientFault → String
  | .noGateway =>
    "no gateway installed; call `magicord::install_gateway` or `ClientBuilder::with_gateway`"
  | .missingToken => "no token set on the client builder"
  | .tokenUnset name => "token environment variable `" ++ name ++ "` is not set"
  | .loginFailed reason => "login failed: " ++ reason
  | .sendFailed channel =>
    "failed to send message to channel '" ++ channel ++ "': gateway outbound queue closed"
  | .closed => "client session is closed"

/-- A place that messages come in on. -/
structure Channel where
  name : String
  /-- the gateway that replies go out through, if it is still there -/
  gateway : Option GatewayId
deriving DecidableEq, Repr

/-- A text to go out on a channel. -/
structure Reply where
  channel : String
  content : String
deriving DecidableEq, Repr

/-- A text that came in on a channel. -/
structure Message where
  content : String
  author : Option String := none
  channel : Channel
deriving DecidableEq, Repr

namespace Channel

/-- Whether a reply can be sent. -/
def check (c : Channel) : Except ClientFault GatewayId :=
  match c.gateway with
  | some g => .ok g
  | none => .error (.sendFailed c.name)

/-- A channel for a reader. -/
def description (c : Channel) : String := Text.record "Channel" [("id", Text.quote c.name)]

end Channel

/-- A message for a reader. -/
def Message.description (m : Message) : String :=
  Text.record "MessageCreateEvent"
    [("content", Text.quote m.content),
     ("author", Text.optional (m.author.map Text.quote)),
     ("channel", m.channel.description)]

end CommandBot
