import CommandBot.Bot.Running

/-
  Sample bots. Each is declared by an impl block, from which its dispatcher is generated, and the
  commands of each do what is said here with what the bot has counted so far.
-/

namespace CommandBot.Demo

/-- A command: its signature, and what it does. -/
structure SampleCommand where
  signature : String
  run : Message → Nat → Outcome Nat

/-- A bot that remembers at most a number. -/
structure Sample where
  name : String
  token : TokenSource
  commands : List SampleCommand
  /-- methods that are no commands -/
  others : List String := []
  counts : Bool := true

namespace Sample

/-- The argument of the attribute that declares a bot. -/
def argument : TokenSource → String
  | .literal token => "token = " ++ Text.quote token
  | .env name => "token_env = " ++ Text.quote name

/-- A method with nothing said about what it does. -/
def method (signature : String) : String := "fn " ++ signature ++ " \x7b todo!() \x7d "

/-- The impl block that declares a bot. -/
def source (s : Sample) : String :=
  "#[bot(" ++ argument s.token ++ ")] impl " ++ s.name ++ " \x7b " ++
    String.join (s.commands.map fun c => "#[prefix_command] " ++ method c.signature) ++
    String.join (s.others.map method) ++ "\x7d"

/-- The dispatcher that is generated for a bot. -/
def dispatcher? (s : Sample) : Option Dispatcher := do
  let block ← ImplBlock.parse? s.source
  let declaration ← (Declaration.ofBlock block "" none).value.toOption
  (Dispatcher.ofDeclaration declaration).value.toOption

/-- What the commands of a bot do. -/
def meaning (s : Sample) : CommandMeaning Nat := fun i m n =>
  match s.commands[i]? with
  | some c => c.run m n
  | none => ⟨n, none⟩

end Sample

/-- A command that answers the same to every message. -/
def fixed (signature answer : String) : SampleCommand := ⟨signature, fun _ n => ⟨n, some answer⟩⟩

/-- A bot that greets. -/
def greeter : Sample where
  name := "Greeter"
  token := .literal "abc123"
  commands :=
    [⟨"hello(&self, event: &MessageCreateEvent) -> String", fun m n =>
        ⟨n + 1, some ("Hello, " ++ m.author.getD "stranger" ++ "!")⟩⟩,
     fixed "bye(&self) -> String" "Goodbye!",
     fixed "ping() -> String" "pong"]
  others := ["helper(&self) -> String"]

/-- A bot with its token in an environment variable. -/
def environmentBot (variable_ : String) : Sample where
  name := "EnvBot"
  token := .env variable_
  commands := [fixed "ping(&self) -> String" "env pong"]
  counts := false

/-- A bot with a token and with commands of odd kinds. -/
def oddBot : Sample where
  name := "OddBot"
  token := .literal "tok\"en\né\x00"
  commands :=
    [⟨"boom(&self) -> String", fun _ n => ⟨n + 1, none⟩⟩,
     fixed "r#match(&self) -> String" "raw",
     fixed "héllo(event: &MessageCreateEvent) -> String" "!HÉLLO",
     ⟨"echo(&self, event: &MessageCreateEvent) -> String", fun m n =>
        ⟨n + 1, some (toString (n + 1) ++ ":" ++ m.channel.name ++ ":" ++ m.author.getD "")⟩⟩,
     fixed "empty() -> String" ""]

/-- A bot that tells about itself and about who asks. -/
def informer : Sample where
  name := "Info"
  token := .literal "info-token"
  commands :=
    [fixed "version() -> String" "0.1.0",
     ⟨"whoami(&self, event: &MessageCreateEvent) -> String", fun m n =>
        ⟨n, some (match m.author with
          | some author => "You are " ++ author ++ "."
          | none => "I don't know who you are.")⟩⟩]
  counts := false

end CommandBot.Demo
