import CommandBot.Bot.Dispatcher
import CommandBot.Chat.Client
import CommandBot.Settings.Basic

/-
  Running dispatchers. A dispatcher logs in with its own token and listens with `onMessage`, which
  runs the command that a message calls and sends its answer back. `onMessage_of_unrouted` says that
  a message that calls no command leads to nothing.
-/

namespace CommandBot

/-- What a command leads to: what the bot remembers then, and the answer unless it panicked. -/
structure Outcome (σ : Type) where
  memory : σ
  answer : Option String
deriving DecidableEq, Repr

/-- What the commands of a bot do, by their places in its declaration. -/
abbrev CommandMeaning (σ : Type) := Nat → Message → σ → Outcome σ

/-- The token that a bot logs in with. -/
def TokenSource.resolve (env : Environment) : TokenSource → Except ClientFault String
  | .literal token => .ok token
  | .env name =>
    match env.lookup name with
    | some token => .ok token
    | none => .error (.tokenUnset name)

namespace Dispatcher

variable {ι σ : Type}

/-- An event of a dispatcher whose code stands in the module `place`. -/
def runningEvent (u : Dispatcher) (place : String) : Log.Event where
  level := .info
  target := place
  message := "Running a bot"
  fields := [("bot", .quoted u.name)]

def unsentEvent (place key : String) (f : ClientFault) : Log.Event where
  level := .error
  target := place
  message := "Failed to send reply"
  fields := [("command", .quoted key), ("error", .plain f.message)]

/-- Sends an answer to a message, or logs why that cannot be done. -/
def respond (place : String) (m : Message) (answer : String) : Deed ι :=
  match m.channel.check with
  | .ok _ => .send m.channel answer
  | .error f => .log (unsentEvent place m.content f)

/-- What a dispatcher does with a message. -/
def onMessage (u : Dispatcher) (place : String) (meaning : CommandMeaning σ) (m : Message)
    (memory : σ) : Reaction ι σ :=
  match u.table.position? m.content with
  | none => .none memory
  | some i =>
    match meaning i m memory with
    | ⟨memory, some answer⟩ => { memory, deeds := [respond place m answer] }
    | ⟨memory, none⟩ => { memory, panics := true }

/-- Logs in with the bot's token, whatever token a builder has, and listens under the name `l`. -/
def runWith (u : Dispatcher) (place : String) (env : Environment) (l : ι) (c : ClientBuilder ι) :
    Exchange ι σ (Except ClientFault SessionId) := do
  (Logged.log (u.runningEvent place) : Logged _)
  match u.token.resolve env with
  | .error f => return .error f
  | .ok token => ((c.setToken token).listen l).login

/-- Logs in through the gateway that is installed. -/
def run (u : Dispatcher) (place : String) (env : Environment) (l : ι) :
    Exchange ι σ (Except ClientFault SessionId) := do
  u.runWith place env l (.new (← get))

theorem onMessage_of_unrouted (u : Dispatcher) (place : String) (meaning : CommandMeaning σ)
    (m : Message) (memory : σ) (h : u.table.position? m.content = none) :
    (u.onMessage place meaning m memory : Reaction ι σ) = .none memory := by
  simp [onMessage, h]

end Dispatcher

end CommandBot
