import CommandBot.Proofs.Emitted
import CommandBot.Proofs.Obstacles

/-
  Units emitted a second time. What decides the outcome of an emission (`Decides`) stays as it is
  while the run goes on: a way that is blocked stays blocked, a directory in the place of a file
  stays there, and a file that was written keeps its text, as no other unit of the run goes to its
  place. So a second run over the files that the first one left comes to the same outcomes and finds
  all it would write (`emitAll_regenerates`).
-/

namespace CommandBot

namespace CodeUnit

/-- The way of an ordinary unit's file ends in a name. -/
theorem exists_route_pathOf (d : OutputDirectory) {u : CodeUnit} (hu : u.IsOrdinary) :
    ∃ way, Path.route (d.pathOf u) = way ++ [.name u.fileName] := by
  obtain ⟨w, -, hroute⟩ := Path.exists_route_push d.path
  refine ⟨w ++ (segments u.namespace_).map .name, ?_⟩
  rw [OutputDirectory.pathOf, (hroute (isWay_relativePath hu.fileNames) hu.fileNames).2, fileNames,
    List.map_append, List.append_assoc]
  rfl

end CodeUnit

namespace OutputDirectory

/-! ## One unit -/

/-- The way to the directory of a unit's file. -/
def parentOf (d : OutputDirectory) (u : CodeUnit) : List Step :=
  (Path.parent? (d.pathOf u)).getD []

/-- How the paths written and the files decide what becomes of a unit, and of the paths written. -/
inductive Decides (d : OutputDirectory) (fs : Files) (u : CodeUnit) :
    Except EmissionFault Unit → OutputDirectory → Prop
  | refused (h : d.hasWritten (d.pathOf u) = true) :
    Decides d fs u (.error (.repeated (d.pathOf u))) d
  | blocked {e : FileFault} (h : d.hasWritten (d.pathOf u) = false)
    (hway : Files.Blocked fs fs.start (d.parentOf u)) : Decides d fs u (.error (.file e)) d
  | occupied {e : FileFault} (h : d.hasWritten (d.pathOf u) = false)
    (hparent : fs.isDirectory (d.parentOf u) = true)
    (hplace : ∀ q, fs.locate (d.pathOf u) = .ok q → fs.get? q = some .directory) :
    Decides d fs u (.error (.file e)) d
  | written (h : d.hasWritten (d.pathOf u) = false)
    (hparent : fs.isDirectory (d.parentOf u) = true) :
    Decides d fs u (.ok ()) (d.record (d.pathOf u))

variable {d d' : OutputDirectory} {fs fs' : Files} {u : CodeUnit}

/-- Only where there is a directory a file cannot be written. -/
theorem occupied_of_update {path text : String} {e : FileFault}
    (h : (update fs path text).value = .error e) :
    ∀ q, fs.locate path = .ok q → fs.get? q = some .directory := by
  intro q hq
  unfold update at h
  split at h
  · exact nomatch h
  · split at h
    · rename_i hwrite
      unfold Files.write at hwrite
      rw [hq] at hwrite
      have hwrite : fs.writeAt q (.text text) = .error _ := hwrite
      unfold Files.writeAt at hwrite
      split at hwrite
      · assumption
      · exact nomatch hwrite
    · exact nomatch h

theorem keeps_update {path text : String} (h : (update fs path text).value = .ok fs') :
    Files.Keeps fs fs' := by
  obtain ⟨q, -, hwrites⟩ := writes_update h
  exact hwrites.keeps

/-- What an emission comes to is decided by the files that it leaves. -/
theorem decides_emit (d : OutputDirectory) (fs : Files) (u : CodeUnit) (deps : Dependencies) :
    let after := (d.emit fs u deps).value
    Decides d after.2.2 u after.1 after.2.1 := by
  rcases hwritten : d.hasWritten (d.pathOf u) with _ | _
  · have hsettles := Files.settles_makeAll fs (d.parentOf u)
    unfold parentOf at hsettles
    unfold emit
    simp only [hwritten, Bool.false_eq_true, if_false]
    rcases hmake : fs.makeAll ((Path.parent? (d.pathOf u)).getD []) with ⟨e | _, made⟩
    · rw [hmake] at hsettles
      exact .blocked hwritten hsettles
    · rw [hmake] at hsettles
      dsimp only
      rw [Logged.value_bind]
      rcases hupdate : (update made (d.pathOf u) u.render).value with e | fs'
      · exact .occupied hwritten hsettles (occupied_of_update hupdate)
      · have hkeeps := keeps_update hupdate
        exact .written hwritten (Files.isDirectory_of_keeps hkeeps.directories hsettles)
  · rw [emit_repeated d fs u deps hwritten]
    exact .refused hwritten

theorem keeps_emit (d : OutputDirectory) (fs : Files) (u : CodeUnit) (deps : Dependencies) :
    Files.Keeps fs (d.emit fs u deps).value.2.2 := by
  have hemits := emits d fs u deps
  generalize (d.emit fs u deps).value = after at hemits ⊢
  obtain _ | ⟨-, hgrows⟩ | ⟨-, -, hwrites⟩ := hemits
  · exact Files.Keeps.refl fs
  · exact hgrows.keeps
  · exact hwrites.keeps

/-- What was decided stays so, whatever else is emitted. -/
theorem Decides.of_keeps (hu : u.IsOrdinary) {outcome : Except EmissionFault Unit}
    (h : Decides d fs u outcome d') (hkeeps : Files.Keeps fs fs') : Decides d fs' u outcome d' := by
  obtain h | ⟨h, hway⟩ | ⟨h, hparent, hplace⟩ | ⟨h, hparent⟩ := h
  · exact .refused h
  · refine .blocked h ?_
    rw [hkeeps.directories.start_eq]
    exact hway.of_keeps hkeeps
  · refine .occupied h (Files.isDirectory_of_keeps hkeeps.directories hparent) fun q hq => ?_
    obtain ⟨way, hroute⟩ := CodeUnit.exists_route_pathOf d hu
    rw [Files.locate_eq_of_keeps hkeeps.directories hroute hparent] at hq
    exact hkeeps.directories.stays q (hplace q hq)
  · exact .written h (Files.isDirectory_of_keeps hkeeps.directories hparent)

theorem Decides.path_eq {outcome : Except EmissionFault Unit} (h : Decides d fs u outcome d') :
    d'.path = d.path := by
  rcases h with _ | _ | _ | _ <;> rfl

/-! ## One unit again -/

/-- Two runs below one directory that have written the same paths. -/
structure Matches (d d' : OutputDirectory) : Prop where
  path_eq : d'.path = d.path
  written_eq : d'.written = d.written

theorem Matches.pathOf_eq (h : Matches d d') (u : CodeUnit) : d'.pathOf u = d.pathOf u := by
  rw [pathOf, pathOf, h.path_eq]

theorem Matches.hasWritten_eq (h : Matches d d') (path : String) :
    d'.hasWritten path = d.hasWritten path := by
  rw [hasWritten, hasWritten, h.written_eq]

theorem Matches.record (h : Matches d d') (path : String) :
    Matches (d.record path) (d'.record path) :=
  ⟨h.path_eq, congrArg (path :: ·) h.written_eq⟩

/-- Outputs that report no file as written. -/
def WritesNone (outputs : List Output) : Prop := ∀ path, .event (writtenEvent path) ∉ outputs

theorem WritesNone.append {s t : List Output} (hs : WritesNone s) (ht : WritesNone t) :
    WritesNone (s ++ t) :=
  fun path h => (List.mem_append.mp h).elim (hs path) (ht path)

theorem writesNone_nil : WritesNone [] := fun _ => List.not_mem_nil

theorem writesNone_announce (d : OutputDirectory) (sources : List String) :
    WritesNone (d.announce sources).outputs := by
  intro path h
  unfold announce at h
  split at h
  · obtain ⟨s, -, hs⟩ := List.mem_map.mp h
    exact nomatch hs
  · exact absurd h List.not_mem_nil

theorem update_of_read {path text : String} (h : fs.read path = .ok text) :
    update fs path text = do Logged.log (unchangedEvent path); return .ok fs := by
  have hholds : fs.holds path text = true := by
    rw [Files.holds, h]
    exact beq_self_eq_true text
  rw [update, if_pos hholds]

theorem update_of_occupied {path text : String}
    (h : ∀ q, fs.locate path = .ok q → fs.get? q = some .directory) :
    ∃ e, update fs path text = pure (.error e) := by
  have hfault : (∃ e, fs.read path = .error e) ∧ ∃ e, fs.write path (.text text) = .error e := by
    unfold Files.read Files.write
    rcases hq : fs.locate path with e | q
    · exact ⟨⟨e, rfl⟩, e, rfl⟩
    · refine ⟨⟨.isDirectory, ?_⟩, .isDirectory, ?_⟩
      · show fs.readAt q = _
        rw [Files.readAt, h q hq]
      · show fs.writeAt q _ = _
        rw [Files.writeAt, if_pos (h q hq)]
  obtain ⟨⟨e, hread⟩, f, hwrite⟩ := hfault
  have hholds : fs.holds path text = false := by rw [Files.holds, hread]
  refine ⟨f, ?_⟩
  rw [update, hholds, hwrite]
  rfl

/-- A unit whose fate was decided meets it again: no file changes, and none is reported as
written. -/
theorem Decides.again {outcome : Except EmissionFault Unit} {after : OutputDirectory}
    (h : Decides d fs u outcome after) (hsame : Matches d d')
    (hheld : outcome.isOk = true → fs.read (d.pathOf u) = .ok u.render) (deps : Dependencies) :
    ∃ outcome' after', (d'.emit fs u deps).value = (outcome', after', fs) ∧
      outcome'.isOk = outcome.isOk ∧ Matches after after' ∧
        WritesNone (d'.emit fs u deps).outputs := by
  have hpath := hsame.pathOf_eq u
  have hwritten := hsame.hasWritten_eq (d.pathOf u)
  obtain h | ⟨h, hway⟩ | ⟨h, hparent, hplace⟩ | ⟨h, hparent⟩ := h
  · have hemit := emit_repeated d' fs u deps (by rw [hpath, hwritten, h])
    rw [hemit]
    exact ⟨_, _, rfl, rfl, hsame, writesNone_nil⟩
  · obtain ⟨e, hmake⟩ := Files.makeAll_of_blocked hway
    unfold parentOf at hmake
    have hemit : d'.emit fs u deps = pure (.error (.file e), d', fs) := by
      unfold emit
      simp only [hpath, hwritten, h, hmake]
      rfl
    rw [hemit]
    exact ⟨_, _, rfl, rfl, hsame, writesNone_nil⟩
  · have hmake := Files.makeAll_of_isDirectory hparent
    unfold parentOf at hmake
    obtain ⟨e, hupdate⟩ : ∃ e, update fs (d.pathOf u) u.render = pure (.error e) :=
      update_of_occupied hplace
    have hemit : d'.emit fs u deps = pure (.error (.file e), d', fs) := by
      unfold emit
      simp only [hpath, hwritten, h, hmake, hupdate]
      rfl
    rw [hemit]
    exact ⟨_, _, rfl, rfl, hsame, writesNone_nil⟩
  · have hmake := Files.makeAll_of_isDirectory hparent
    unfold parentOf at hmake
    have hupdate := update_of_read (hheld rfl)
    have hemit : d'.emit fs u deps = do
        Logged.log (unchangedEvent (d.pathOf u))
        d'.announce deps.sources
        return (.ok (), d'.record (d.pathOf u), fs) := by
      unfold emit
      simp only [hpath, hwritten, h, hmake, hupdate]
      rfl
    rw [hemit]
    refine ⟨_, _, rfl, rfl, hsame.record _, ?_⟩
    simp only [Logged.outputs_bind, Logged.outputs_log, Logged.outputs_pure, List.append_nil]
    refine WritesNone.append (fun path hmem => ?_) (writesNone_announce d' deps.sources)
    have hevent := Output.event.inj (List.mem_singleton.mp hmem)
    exact nomatch congrArg Log.Event.level hevent

/-! ## Runs again -/

/-- Emits units one after the other, with what that puts out. -/
def emitting (d : OutputDirectory) (fs : Files) : List (CodeUnit × Dependencies) →
    Logged (List (CodeUnit × Except EmissionFault Unit) × OutputDirectory × Files)
  | [] => pure ([], d, fs)
  | (u, deps) :: rest => do
    let (outcome, d, fs) ← d.emit fs u deps
    let (results, after) ← d.emitting fs rest
    return ((u, outcome) :: results, after)

theorem value_emitting (d : OutputDirectory) (fs : Files)
    (jobs : List (CodeUnit × Dependencies)) : (d.emitting fs jobs).value = d.emitAll fs jobs := by
  induction jobs generalizing d fs with
  | nil => rfl
  | cons j rest ih =>
    rw [emitting, emitAll, Logged.value_bind, Logged.value_bind, ih]
    rfl

theorem keeps_emitAll (d : OutputDirectory) (fs : Files) (jobs : List (CodeUnit × Dependencies)) :
    Files.Keeps fs (d.emitAll fs jobs).2.2 := by
  induction jobs generalizing d fs with
  | nil => exact Files.Keeps.refl fs
  | cons j rest ih => exact (keeps_emit d fs j.1 j.2).trans (ih _ _)

theorem mem_accepted_cons {a : CodeUnit} {outcome : Except EmissionFault Unit}
    {results : List (CodeUnit × Except EmissionFault Unit)} :
    a ∈ accepted ((u, outcome) :: results) ↔
      (outcome.isOk = true ∧ a = u) ∨ a ∈ accepted results := by
  rcases outcome with e | _ <;> simp [accepted, Except.toOption, Except.isOk, Except.toBool]

/-- Which units were emitted and which were not. -/
def verdicts (results : List (CodeUnit × Except EmissionFault Unit)) : List (CodeUnit × Bool) :=
  results.map fun r => (r.1, r.2.isOk)

/-- A run of `d` over the files that an earlier run with these results left: it comes to the same,
writes no file and leaves all files as they are, after any number of its units. -/
structure Regenerates (d : OutputDirectory) (jobs : List (CodeUnit × Dependencies))
    (earlier : List (CodeUnit × Except EmissionFault Unit) × OutputDirectory × Files) : Prop where
  verdicts_eq : verdicts (d.emitting earlier.2.2 jobs).value.1 = verdicts earlier.1
  listing_eq : (d.emitting earlier.2.2 jobs).value.2.1.listing = earlier.2.1.listing
  files_eq : (d.emitting earlier.2.2 jobs).value.2.2 = earlier.2.2
  untouched : ∀ n, (d.emitting earlier.2.2 (jobs.take n)).value.2.2 = earlier.2.2
  quiet : WritesNone (d.emitting earlier.2.2 jobs).outputs

/-- The induction goes over a run whose files `end_` keeps: they are those at the end of the whole
run, and each unit has been decided by the time it was emitted. -/
theorem emitting_again {end_ : Files} (hsame : Matches d d')
    (jobs : List (CodeUnit × Dependencies)) (hjobs : ∀ j ∈ jobs, j.1.IsOrdinary)
    (hkeeps : Files.Keeps (d.emitAll fs jobs).2.2 end_)
    (hheld : ∀ a ∈ accepted (d.emitAll fs jobs).1, end_.read (d.pathOf a) = .ok a.render) :
    verdicts (d'.emitting end_ jobs).value.1 = verdicts (d.emitAll fs jobs).1 ∧
      Matches (d.emitAll fs jobs).2.1 (d'.emitting end_ jobs).value.2.1 ∧
      (∀ n, (d'.emitting end_ (jobs.take n)).value.2.2 = end_) ∧
      WritesNone (d'.emitting end_ jobs).outputs := by
  induction jobs generalizing d d' fs with
  | nil => exact ⟨rfl, hsame, fun n => by rw [List.take_nil]; rfl, writesNone_nil⟩
  | cons j rest ih =>
    obtain ⟨u, deps⟩ := j
    have hu : u.IsOrdinary := hjobs (u, deps) List.mem_cons_self
    have hrest : ∀ j ∈ rest, j.1.IsOrdinary := fun j hj => hjobs j (List.mem_cons_of_mem _ hj)
    have hdecides := decides_emit d fs u deps
    rw [emitAll] at hkeeps hheld ⊢
    generalize (d.emit fs u deps).value = step at hdecides hkeeps hheld ⊢
    obtain ⟨outcome, after, made⟩ := step
    dsimp only at hdecides hkeeps hheld ⊢
    have hpath := hdecides.path_eq
    have hend := hdecides.of_keeps hu ((keeps_emitAll after made rest).trans hkeeps)
    obtain ⟨outcome', after', hvalue, hverdict, hsame', hquiet⟩ :=
      hend.again hsame (fun hok => hheld u (mem_accepted_cons.mpr (.inl ⟨hok, rfl⟩))) deps
    obtain ⟨hverdicts, hafter, huntouched, hquiets⟩ := ih hsame' hrest hkeeps fun a ha => by
      rw [pathOf, hpath]
      exact hheld a (mem_accepted_cons.mpr (.inr ha))
    rw [emitting, Logged.value_bind, Logged.outputs_bind, hvalue]
    refine ⟨?_, hafter, ?_, hquiet.append ?_⟩
    · show (u, outcome'.isOk) :: verdicts _ = (u, outcome.isOk) :: verdicts _
      rw [hverdict]
      exact congrArg _ hverdicts
    · rintro (_ | n)
      · rfl
      · rw [List.take_succ_cons, emitting, Logged.value_bind, hvalue]
        exact huntouched n
    · simpa using hquiets

/-- Emitting units a second time, below the same directory and with nothing written yet, succeeds
and fails for the same units, ends with the same paths written, and writes no file. -/
theorem emitAll_regenerates (d d' : OutputDirectory) (fs : Files)
    (jobs : List (CodeUnit × Dependencies)) (hpath : d'.path = d.path) (hfresh : d.written = [])
    (hfresh' : d'.written = []) (hjobs : ∀ j ∈ jobs, j.1.IsOrdinary) :
    d'.Regenerates jobs (d.emitting fs jobs).value := by
  rw [value_emitting]
  have haccounts :=
    (Accounts.fresh fs hfresh).emitAll (fun _ h => absurd h List.not_mem_nil) jobs hjobs
  rw [List.nil_append] at haccounts
  obtain ⟨hverdicts, hafter, huntouched, hquiet⟩ :=
    emitting_again ⟨hpath, hfresh'.trans hfresh.symm⟩ jobs hjobs (Files.Keeps.refl _)
      haccounts.held
  refine ⟨hverdicts, ?_, ?_, huntouched, hquiet⟩
  · rw [listing, listing, hafter.written_eq]
  · simpa using huntouched jobs.length

/-- Two units of one name, one whose directory is the file of the first, and one whose file is a
directory already. -/
theorem emitAll_regenerates_obstacles :
    let fs : Files :=
      { entries := [(["out"], .directory), (["out", "D.rs"], .directory)], start := ["demo"] }
    let jobs := [(⟨"a", "B", []⟩, {}), (⟨"a", "B", []⟩, {}), (⟨"a::B.rs", "C", []⟩, {}),
      (⟨"", "D", []⟩, {})]
    (∀ j ∈ jobs, j.1.IsOrdinary) ∧
      OutputDirectory.Regenerates { path := "/out", announcesSources := true } jobs
        (OutputDirectory.emitting { path := "/out" } fs jobs).value :=
  ⟨by decide, emitAll_regenerates { path := "/out" } { path := "/out", announcesSources := true } _ _
    rfl rfl rfl (by decide)⟩

end OutputDirectory

end CommandBot
