import CommandBot.Chat.Listener

/-
  The task of a session. It takes one message after the other from the queue and calls the
  listeners that are registered at that moment, in order. It ends when the session was shut down, or
  when the queue is empty and nothing feeds it. `advance` is one step of it; where both a shutdown
  and the stream can be attended to, either may come first. `settle` lets all tasks run until each
  has to wait.
-/

namespace CommandBot

variable {ι σ : Type}

namespace Session

def target : String := "magicord_core::client"

/-- The scope of all that happens in a session. -/
def scope (s : Session ι) : Log.Scope where
  name := "session"
  target := target
  fields := [("gateway", .quoted s.gatewayName)]
  level := .debug

def inboundEvent (m : Message) : Log.Event where
  level := .trace
  target := target
  message := "Inbound message"
  fields := [("channel", .quoted m.channel.name)]

def panickedEvent (m : Message) : Log.Event where
  level := .error
  target := target
  message := "Message listener panicked"
  fields := [("channel", .quoted m.channel.name)]

def shutDownEvent : Log.Event where
  level := .debug
  target := target
  message := "Session shut down"

def streamEndedEvent : Log.Event where
  level := .debug
  target := target
  message := "Gateway closed the inbound stream"

/-- A session that has ended. The messages that were left in its queue are gone. -/
def ended (s : Session ι) : Session ι := { s with phase := .ended, isClosed := true, queue := [] }

/-- A session that has taken a message, with the rest of the queue. -/
def taking (s : Session ι) (m : Message) (rest : List Message) : Session ι :=
  { s with queue := rest, phase := .handling m s.listeners }

/-- The steps that a session needs at most to come to rest, if nothing more comes in. -/
def effort (s : Session ι) : Nat :=
  let left := match s.phase with
    | .handling _ left => left.length + 1
    | _ => 0
  s.queue.length * (s.listeners.length + 2) + left + 1

end Session

/-- Which of two things a task attends to when it could attend to either. -/
inductive Preference where
  | shutdown
  | stream
deriving DecidableEq, Repr

namespace Network

/-- Whether the stream of a session has something to attend to: a message, or its end. -/
def isStreamReady (w : Network ι σ) (i : SessionId) (s : Session ι) : Bool :=
  !s.queue.isEmpty || !w.isFed i

/-- Whether the task of a session has nothing to do for now. -/
def isAtRest (w : Network ι σ) (i : SessionId) : Bool :=
  match w.sessions[i]? with
  | none => true
  | some s =>
    match s.phase with
    | .ended => true
    | .handling _ _ => false
    | .waiting => !s.isClosed && !w.isStreamReady i s

/-- The steps that all sessions need at most to come to rest, if nothing more comes in. -/
def effort (w : Network ι σ) : Nat := (w.sessions.map Session.effort).foldr (· + ·) 0

end Network

namespace Session

/-- Ends a session. -/
def finish (i : SessionId) (e : Log.Event) : Exchange ι σ Unit := do
  (Logged.log e : Logged _)
  modify fun w => w.onSession i ended

/-- Attends to the stream of a waiting session. -/
def attend (i : SessionId) (s : Session ι) : Exchange ι σ Unit := do
  match s.queue with
  | [] => finish i streamEndedEvent
  | m :: rest =>
    (Logged.log (inboundEvent m) : Logged _)
    modify fun w => w.onSession i fun s => s.taking m rest

/-- Calls the next listener. -/
def callNext (b : Behavior ι σ) (i : SessionId) (m : Message) (l : ι) (left : List ι) :
    Exchange ι σ Unit := do
  modify fun w => w.onSession i fun s => { s with phase := .handling m left }
  if ← b.call l m then (Logged.log (panickedEvent m) : Logged _)

/-- One step of the task of a session. -/
def step (b : Behavior ι σ) (p : Preference) (i : SessionId) (s : Session ι) :
    Exchange ι σ Unit := do
  match s.phase with
  | .ended => return
  | .handling m (l :: left) => callNext b i m l left
  | .handling _ [] => modify fun w => w.onSession i fun s => { s with phase := .waiting }
  | .waiting =>
    let ready := (← get).isStreamReady i s
    if s.isClosed && !(ready && p == .stream) then finish i shutDownEvent
    else if ready then attend i s

end Session

namespace Network

/-- One step of the task of a session. -/
def advance (b : Behavior ι σ) (p : Preference) (i : SessionId) : Exchange ι σ Unit := do
  match (← get).sessions[i]? with
  | none => return
  | some s => fun w => Logged.within s.scope (s.step b p i w)

/-- The first session whose task has something to do. -/
def busy? (w : Network ι σ) : Option SessionId :=
  (List.range w.sessions.length).find? fun i => !w.isAtRest i

/-- Lets the tasks of all sessions run until each has to wait, within a number of steps. -/
def settle (b : Behavior ι σ) : Nat → Exchange ι σ Unit
  | 0 => return
  | n + 1 => do
    match (← get).busy? with
    | none => return
    | some i =>
      advance b .shutdown i
      settle b n

end Network

end CommandBot
