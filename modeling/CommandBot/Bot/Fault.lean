import CommandBot.Files.Basic
import CommandBot.Token.Basic

/-
  Why no dispatcher can be generated: the causes, the stage at which each one shows, and its
  wording. Every fault of one bot names that bot.
-/

namespace CommandBot

/-- A stage on the way from a declaration to an emitted unit. -/
inductive Stage where
  | resolve
  | synthesize
  | assemble
  | emit
deriving DecidableEq, Repr

def Stage.name : Stage → String
  | .resolve => "resolve"
  | .synthesize => "synthesize"
  | .assemble => "assemble"
  | .emit => "emit"

/-- Why a method cannot be a command. -/
inductive CommandFault where
  | reservedName
  | asynchronous
  | generic
  | notSafe
  | foreignAbi
  | variadic
  | noReply
  | receiver
  | tooManyParameters
  | parameterType
deriving DecidableEq, Repr

def CommandFault.message : CommandFault → String
  | .reservedName => "this name is reserved for a generated member"
  | .asynchronous => "async command handlers are not supported"
  | .generic => "command handlers cannot be generic"
  | .notSafe => "command handlers cannot be unsafe"
  | .foreignAbi => "command handlers cannot declare an ABI"
  | .variadic => "command handlers cannot be variadic"
  | .noReply => "command handlers must return the reply text"
  | .receiver => "command handlers must take `&self`"
  | .tooManyParameters =>
    "command handlers take at most one parameter, the inbound message event"
  | .parameterType => "the parameter must be the inbound message event, `&MessageCreateEvent`"

/-- Why the arguments of a bot's attribute cannot be read. -/
inductive ArgumentFault where
  | noArgument
  | literal
  | token
  | noWord (atEnd : Bool)
  | noSign
  | noText (atEnd : Bool)
  | noComma
  | unknown
deriving DecidableEq, Repr

/-- A wording that says whether the arguments ended too early. -/
def expectation (atEnd : Bool) (what : String) : String :=
  if atEnd then "unexpected end of input, " ++ what else what

def ArgumentFault.message : ArgumentFault → String
  | .noArgument => expectation true "expected nested attribute"
  | .literal => "unexpected literal in nested attribute, expected ident"
  | .token => "unexpected token in nested attribute, expected ident"
  | .noWord atEnd => expectation atEnd "expected ident"
  | .noSign => "expected `=`"
  | .noText atEnd => expectation atEnd "expected string literal"
  | .noComma => "expected `,`"
  | .unknown => "unknown #[bot] argument; expected `token` or `token_env`"

/-- What is wrong with a declaration. -/
inductive Malformation where
  | traitBlock
  | genericArguments
  | unnamedType
  | genericBlock
  | command (name : String) (fault : CommandFault)
  | argument (fault : ArgumentFault)
  | assignedArguments
  | bothTokens
deriving DecidableEq, Repr

namespace Malformation

def stage : Malformation → Stage
  | .traitBlock | .genericArguments | .unnamedType | .genericBlock => .resolve
  | .command _ _ => .synthesize
  | .argument _ | .assignedArguments | .bothTokens => .assemble

def message : Malformation → String
  | .traitBlock => "#[bot] must be placed on an inherent impl block, not a trait impl"
  | .genericArguments => "bot types cannot take generic arguments"
  | .unnamedType => "bot must be a named type such as `struct Greeter`"
  | .genericBlock => "bot types cannot be generic"
  | .command name fault => "command `" ++ name ++ "`: " ++ fault.message
  | .argument fault => fault.message
  | .assignedArguments => "expected #[bot(token = \"...\")]"
  | .bothTokens => "specify either `token` or `token_env`, not both"

end Malformation

/-- Why a unit cannot be persisted. -/
inductive EmissionFault where
  | file (fault : FileFault)
  /-- another unit of the same run has the same path -/
  | repeated (path : String)
deriving DecidableEq, Repr

def EmissionFault.message : EmissionFault → String
  | .file fault => fault.message
  | .repeated path => "`" ++ path ++ "` was already generated in this run"

/-- Why the generator gives up on a declaration. -/
inductive Fault where
  | malformed (declaration : String) (what : Malformation) (span : Span)
  | configurationMissing (declaration : String) (span : Span)
  | argumentMissing (declaration : String) (argument : String) (span : Span)
  | emission (declaration : String) (unit : String) (cause : EmissionFault)
deriving DecidableEq, Repr

namespace Fault

/-- The bot that a fault is about. -/
def declaration : Fault → String
  | .malformed d _ _ => d
  | .configurationMissing d _ => d
  | .argumentMissing d _ _ => d
  | .emission d _ _ => d

def stage : Fault → Stage
  | .malformed _ what _ => what.stage
  | .configurationMissing _ _ => .assemble
  | .argumentMissing _ _ _ => .assemble
  | .emission _ _ _ => .emit

/-- Where a fault points. -/
def span : Fault → Span
  | .malformed _ _ s => s
  | .configurationMissing _ s => s
  | .argumentMissing _ _ s => s
  | .emission _ _ _ => .generated

/-- What happened, without the bot and the stage. -/
def reason : Fault → String
  | .malformed _ what _ => what.message
  | .configurationMissing _ _ => "no #[bot(...)] configuration attribute found"
  | .argumentMissing _ argument _ => "#[bot] is missing the `" ++ argument ++ "` argument"
  | .emission _ unit cause => "could not write `" ++ unit ++ "`: " ++ cause.message

def message (f : Fault) : String :=
  "bot `" ++ f.declaration ++ "`: " ++ f.stage.name ++ " failed: " ++ f.reason

end Fault

end CommandBot
