import CommandBot.Emission.Sink
import CommandBot.Proofs.Following
import CommandBot.Proofs.OrdinaryPath
import Mathlib.Data.List.Nodup

/-
  A run of one output directory. Units whose modules and names are names of files have places below
  the directory that differ where their paths differ (`steps_eq_of_locate`), so that no unit is
  written over another one. `emitAll_accounts`: at every point of a run the paths written are those
  of the units accepted, each of them holds its unit's text, and all other files are as they were.
-/

namespace CommandBot

namespace CodeUnit

/-- The modules and the file below the output directory. -/
def fileNames (u : CodeUnit) : List String := segments u.namespace_ ++ [u.fileName]

/-- A unit whose modules and name are names of files. -/
def IsOrdinary (u : CodeUnit) : Prop :=
  (∀ s ∈ segments u.namespace_, Path.IsOrdinary s) ∧ Path.IsOrdinary u.name

instance : DecidablePred IsOrdinary := fun u => by
  unfold IsOrdinary
  infer_instance

theorem relativePath_eq_join (u : CodeUnit) : u.relativePath = Path.join u.fileNames := by
  rw [relativePath, fileNames, Path.join, Path.join, List.foldl_append]
  rfl

/-- With the ending of a source file, any name without slashes is that of a file. -/
theorem isOrdinary_fileName {u : CodeUnit} (h : '/' ∉ u.name.toList) :
    Path.IsOrdinary u.fileName := by
  have htext : u.fileName.toList = u.name.toList ++ ['.', 'r', 's'] := by
    rw [fileName, String.toList_append]
    rfl
  have hne : ∀ t : String, t.toList.length < 3 → u.fileName ≠ t := by
    rintro t ht rfl
    rw [htext, List.length_append] at ht
    simp only [List.length_cons, List.length_nil] at ht
    omega
  refine ⟨hne "" (by decide), hne "." (by decide), hne ".." (by decide), ?_⟩
  rw [htext, List.mem_append]
  rintro (hmem | hmem)
  · exact h hmem
  · exact absurd hmem (by decide)

theorem IsOrdinary.fileNames {u : CodeUnit} (h : u.IsOrdinary) :
    ∀ n ∈ u.fileNames, Path.IsOrdinary n := by
  intro n hn
  rcases List.mem_append.mp hn with hn | hn
  · exact h.1 n hn
  · rw [List.mem_singleton.mp hn]
    exact isOrdinary_fileName h.2.2.2.2

theorem isWay_relativePath {u : CodeUnit} (h : ∀ n ∈ u.fileNames, Path.IsOrdinary n) :
    Path.IsWay u.relativePath u.fileNames := by
  rw [relativePath_eq_join]
  exact Path.isWay_join (by simp [CodeUnit.fileNames]) h

end CodeUnit

namespace OutputDirectory

/-- Units that come to the same place have the same path. -/
theorem steps_eq_of_locate {d : OutputDirectory} {fs : Files} {u v : CodeUnit} {q : Place}
    (hu : u.IsOrdinary) (hv : v.IsOrdinary) (hq : fs.locate (d.pathOf u) = .ok q)
    (hq' : fs.locate (d.pathOf v) = .ok q) :
    Path.steps (d.pathOf u) = Path.steps (d.pathOf v) := by
  obtain ⟨w, -, hroute⟩ := Path.exists_route_push d.path
  have hrouteU : Path.route (d.pathOf u) = w ++ u.fileNames.map .name :=
    (hroute (CodeUnit.isWay_relativePath hu.fileNames) hu.fileNames).2
  have hrouteV : Path.route (d.pathOf v) = w ++ v.fileNames.map .name :=
    (hroute (CodeUnit.isWay_relativePath hv.fileNames) hv.fileNames).2
  have hleadU := ((Files.locate_eq_ok_iff _ _ _).mp hq).2
  have hleadV := ((Files.locate_eq_ok_iff _ _ _).mp hq').2
  rw [hrouteU, Files.resolve_append_eq_ok_iff] at hleadU
  rw [hrouteV, Files.resolve_append_eq_ok_iff] at hleadV
  obtain ⟨o, ho, hnamesU⟩ := hleadU
  obtain ⟨o', ho', hnamesV⟩ := hleadV
  obtain rfl : o = o' := Except.ok.inj (ho.symm.trans ho')
  have hnames : u.fileNames = v.fileNames :=
    List.append_cancel_left ((Files.follow_names hnamesU).symm.trans (Files.follow_names hnamesV))
  rw [Path.steps, Path.steps, hrouteU, hrouteV, hnames]

/-! ## One unit -/

/-- What can come of a unit: it is refused, or no file changes, or just its own does. -/
inductive Emits (d : OutputDirectory) (fs : Files) (u : CodeUnit) :
    Except EmissionFault Unit × OutputDirectory × Files → Prop
  | refused (h : d.hasWritten (d.pathOf u) = true) :
    Emits d fs u (.error (.repeated (d.pathOf u)), d, fs)
  | failed {e : FileFault} {fs' : Files} (h : d.hasWritten (d.pathOf u) = false)
    (hgrows : Files.Grows fs fs') : Emits d fs u (.error (.file e), d, fs')
  | written {q : Place} {fs' : Files} (h : d.hasWritten (d.pathOf u) = false)
    (hq : fs'.locate (d.pathOf u) = .ok q) (hwrites : Files.Writes fs fs' q u.render) :
    Emits d fs u (.ok (), d.record (d.pathOf u), fs')

/-- Bringing a file to hold a text makes it hold the text, and changes no other file. -/
theorem writes_update {fs fs' : Files} {path text : String}
    (h : (update fs path text).value = .ok fs') :
    ∃ q, fs'.locate path = .ok q ∧ Files.Writes fs fs' q text := by
  unfold update at h
  split at h
  · rename_i hholds
    cases h
    have hread : fs.read path = .ok text := by
      unfold Files.holds at hholds
      split at hholds
      · rename_i content hread
        rw [hread, beq_iff_eq.mp hholds]
      · cases hholds
    obtain ⟨q, hq, hself⟩ := Files.exists_of_read hread
    refine ⟨q, hq, rfl, hself, ?_, fun p _ => .inl rfl⟩
    rw [hself]
    exact fun h => nomatch h
  · split at h
    · cases h
    · rename_i hwrite
      cases h
      obtain ⟨q, hq, hwrites⟩ := Files.exists_of_write hwrite
      exact ⟨q, Files.locate_of_keeps hwrites.keepsDirectories hq, hwrites⟩

theorem emits (d : OutputDirectory) (fs : Files) (u : CodeUnit) (deps : Dependencies) :
    Emits d fs u (d.emit fs u deps).value := by
  cases hwritten : d.hasWritten (d.pathOf u) with
  | true =>
    rw [emit_repeated d fs u deps hwritten]
    exact .refused hwritten
  | false =>
    have hgrows := Files.grows_makeAll fs ((Path.parent? (d.pathOf u)).getD [])
    unfold emit
    simp only [hwritten, Bool.false_eq_true, if_false]
    split
    · rename_i hmake
      rw [hmake] at hgrows
      exact .failed hwritten hgrows
    · rename_i made hmake
      rw [hmake] at hgrows
      rw [Logged.value_bind]
      cases hupdate : (update made (d.pathOf u) u.render).value with
      | error e => exact .failed hwritten hgrows
      | ok fs' =>
        obtain ⟨q, hq, hwrites⟩ := writes_update hupdate
        exact .written hwritten hq (hwrites.of_grows hgrows)

/-! ## Runs -/

/-- Emits units one after the other; each with what becomes of it. -/
def emitAll (d : OutputDirectory) (fs : Files) : List (CodeUnit × Dependencies) →
    List (CodeUnit × Except EmissionFault Unit) × OutputDirectory × Files
  | [] => ([], d, fs)
  | (u, deps) :: rest =>
    let (outcome, d, fs) := (d.emit fs u deps).value
    let (results, after) := d.emitAll fs rest
    ((u, outcome) :: results, after)

/-- The units that were emitted. -/
def accepted (results : List (CodeUnit × Except EmissionFault Unit)) : List CodeUnit :=
  results.filterMap fun r => r.2.toOption.map fun _ => r.1

/-- The files, and what they hold, are the same in both; directories need not be. -/
def SameFiles (fs fs' : Files) : Prop :=
  ∀ (q : Place) (n : Node), n ≠ .directory → (fs'.get? q = some n ↔ fs.get? q = some n)

/-- The directory `d` and the files, once just these units of a run from `d₀` were accepted. -/
structure Accounts (d₀ : OutputDirectory) (start : Files) (us : List CodeUnit)
    (d : OutputDirectory) (fs : Files) : Prop where
  path_eq : d.path = d₀.path
  listing_perm : d.listing.Perm (us.map d₀.pathOf)
  distinct : (us.map fun u => Path.steps (d₀.pathOf u)).Nodup
  held : ∀ u ∈ us, fs.read (d₀.pathOf u) = .ok u.render
  others : ∀ (q : Place) (n : Node), (∀ u ∈ us, fs.locate (d₀.pathOf u) ≠ .ok q) →
    n ≠ .directory → (fs.get? q = some n ↔ start.get? q = some n)

theorem listing_perm_written (d : OutputDirectory) : d.listing.Perm d.written :=
  List.mergeSort_perm _ _

theorem hasWritten_iff (d : OutputDirectory) (path : String) :
    d.hasWritten path = true ↔ ∃ p ∈ d.listing, Path.steps p = Path.steps path := by
  rw [hasWritten, List.any_eq_true]
  simp only [beq_iff_eq, d.listing_perm_written.mem_iff]

namespace Accounts

variable {d₀ d : OutputDirectory} {start fs : Files} {us : List CodeUnit}

theorem fresh (start : Files) (h : d.written = []) : Accounts d start [] d start where
  path_eq := rfl
  listing_perm := by
    have := d.listing_perm_written
    rwa [h] at this
  distinct := List.nodup_nil
  held _ h := absurd h List.not_mem_nil
  others _ _ _ _ := Iff.rfl

theorem pathOf_eq (h : Accounts d₀ start us d fs) (u : CodeUnit) : d.pathOf u = d₀.pathOf u := by
  rw [pathOf, pathOf, h.path_eq]

/-- A path is taken if it is that of an accepted unit. -/
theorem hasWritten_iff (h : Accounts d₀ start us d fs) (u : CodeUnit) :
    d.hasWritten (d.pathOf u) = true ↔
      ∃ a ∈ us, Path.steps (d₀.pathOf a) = Path.steps (d₀.pathOf u) := by
  rw [OutputDirectory.hasWritten_iff, h.pathOf_eq]
  simp only [h.listing_perm.mem_iff, List.mem_map, exists_exists_and_eq_and]

/-- What makes no file and changes none leaves the account right. -/
theorem grow (h : Accounts d₀ start us d fs) {fs' : Files} (hgrows : Files.Grows fs fs') :
    Accounts d₀ start us d fs' where
  path_eq := h.path_eq
  listing_perm := h.listing_perm
  distinct := h.distinct
  held u hu := by
    obtain ⟨q, hq, htext⟩ := Files.exists_of_read (h.held u hu)
    exact Files.read_of_locate (Files.locate_of_keeps hgrows.keepsDirectories hq)
      ((hgrows.file_iff q (Node.text_ne_directory _)).mpr htext)
  others q n hq hn := by
    rw [hgrows.file_iff q hn]
    refine h.others q n (fun u hu hlocate => hq u hu ?_) hn
    exact Files.locate_of_keeps hgrows.keepsDirectories hlocate

/-- Writing one more unit, at a path that is not taken, keeps what the others hold. -/
theorem write (h : Accounts d₀ start us d fs) (hus : ∀ a ∈ us, a.IsOrdinary) {u : CodeUnit}
    (hu : u.IsOrdinary) {q : Place} {fs' : Files} (hfresh : d.hasWritten (d.pathOf u) = false)
    (hq : fs'.locate (d.pathOf u) = .ok q) (hwrites : Files.Writes fs fs' q u.render) :
    Accounts d₀ start (us ++ [u]) (d.record (d.pathOf u)) fs' := by
  have hnew : ∀ a ∈ us, Path.steps (d₀.pathOf a) ≠ Path.steps (d₀.pathOf u) := by
    intro a ha hsteps
    have := (h.hasWritten_iff u).mpr ⟨a, ha, hsteps⟩
    rw [hfresh] at this
    cases this
  rw [h.pathOf_eq] at hq ⊢
  refine ⟨h.path_eq, ?_, ?_, ?_, ?_⟩
  · have hrecord := (d.record (d₀.pathOf u)).listing_perm_written
    refine hrecord.trans (((d.listing_perm_written.symm.trans h.listing_perm).cons _).trans ?_)
    rw [List.map_append]
    exact (List.perm_append_singleton _ _).symm
  · rw [List.map_append, List.map_singleton, List.nodup_append]
    refine ⟨h.distinct, List.nodup_singleton _, ?_⟩
    intro s hs t ht
    obtain ⟨a, ha, rfl⟩ := List.mem_map.mp hs
    rw [List.mem_singleton.mp ht]
    exact hnew a ha
  · intro a ha
    rcases List.mem_append.mp ha with ha | ha
    · obtain ⟨p, hp, htext⟩ := Files.exists_of_read (h.held a ha)
      have hp' := Files.locate_of_keeps hwrites.keepsDirectories hp
      -- a place shared with the new unit would be one path accepted twice
      have hne : p ≠ q := by
        rintro rfl
        exact hnew a ha (steps_eq_of_locate (hus a ha) hu hp' hq)
      exact Files.read_of_locate hp' ((hwrites.file_iff hne (Node.text_ne_directory _)).mpr htext)
    · rw [List.mem_singleton.mp ha]
      exact Files.read_of_locate hq hwrites.self
  · intro p n hp hn
    have hne : p ≠ q := by
      rintro rfl
      exact hp u (by simp) hq
    rw [hwrites.file_iff hne hn]
    refine h.others p n (fun a ha hlocate => hp a (List.mem_append_left _ ha) ?_) hn
    exact Files.locate_of_keeps hwrites.keepsDirectories hlocate

theorem emitAll (h : Accounts d₀ start us d fs) (hus : ∀ a ∈ us, a.IsOrdinary)
    (jobs : List (CodeUnit × Dependencies)) (hjobs : ∀ j ∈ jobs, j.1.IsOrdinary) :
    Accounts d₀ start (us ++ accepted (d.emitAll fs jobs).1) (d.emitAll fs jobs).2.1
      (d.emitAll fs jobs).2.2 := by
  induction jobs generalizing us d fs with
  | nil =>
    rw [OutputDirectory.emitAll]
    simpa [accepted] using h
  | cons j rest ih =>
    obtain ⟨u, deps⟩ := j
    have hu : u.IsOrdinary := hjobs (u, deps) List.mem_cons_self
    have hrest : ∀ j ∈ rest, j.1.IsOrdinary := fun j hj => hjobs j (List.mem_cons_of_mem _ hj)
    rw [OutputDirectory.emitAll]
    cases hstep : (d.emit fs u deps).value with
    | mk outcome after =>
      have hemits := emits d fs u deps
      rw [hstep] at hemits
      cases hemits with
      | refused hwritten => exact ih h hus hrest
      | failed hwritten hgrows => exact ih (h.grow hgrows) hus hrest
      | written hwritten hq hwrites =>
        have hus' : ∀ a ∈ us ++ [u], a.IsOrdinary := by
          intro a ha
          rcases List.mem_append.mp ha with ha | ha
          · exact hus a ha
          · rwa [List.mem_singleton.mp ha]
        have := ih (h.write hus hu hwritten hq hwrites) hus' hrest
        rwa [List.append_assoc] at this

end Accounts

/-- What holds after any run of a fresh output directory, and of the unit that comes next. -/
theorem emitAll_accounts (d : OutputDirectory) (fs : Files) (jobs : List (CodeUnit × Dependencies))
    (hfresh : d.written = []) (hjobs : ∀ j ∈ jobs, j.1.IsOrdinary) :
    let run := d.emitAll fs jobs
    Accounts d fs (accepted run.1) run.2.1 run.2.2 ∧
      ∀ (u : CodeUnit) (deps : Dependencies),
        let next := (run.2.1.emit run.2.2 u deps).value
        ((∃ a ∈ accepted run.1, Path.steps (d.pathOf a) = Path.steps (d.pathOf u)) →
          next = (.error (.repeated (d.pathOf u)), run.2)) ∧
        (∀ e, next.1 = .error e → next.2.1 = run.2.1 ∧ SameFiles run.2.2 next.2.2) := by
  have haccounts :=
    (Accounts.fresh fs hfresh).emitAll (fun _ h => absurd h List.not_mem_nil) jobs hjobs
  rw [List.nil_append] at haccounts
  refine ⟨haccounts, fun u deps => ?_⟩
  generalize d.emitAll fs jobs = run at haccounts ⊢
  have hemits := emits run.2.1 run.2.2 u deps
  dsimp only
  generalize (run.2.1.emit run.2.2 u deps).value = next at hemits ⊢
  constructor
  · intro htaken
    have htaken := (haccounts.hasWritten_iff u).mpr htaken
    cases hemits with
    | refused h => rw [haccounts.pathOf_eq]
    | failed h _ => exact absurd (h.symm.trans htaken) (by decide)
    | written h _ _ => exact absurd (h.symm.trans htaken) (by decide)
  · intro e he
    cases hemits with
    | refused h => exact ⟨rfl, fun _ _ _ => Iff.rfl⟩
    | failed h hgrows => exact ⟨rfl, fun q _ hn => hgrows.file_iff q hn⟩
    | written h _ _ => cases he

/-- In a directory that is not below the working directory: two units of one name, the second
refused, and a third whose directory is the file of the first. -/
theorem emitAll_accounts_three :
    let d : OutputDirectory := { path := "/target/out" }
    let fs : Files := { start := ["demo"] }
    let jobs := [(⟨"a", "B", []⟩, {}), (⟨"a", "B", []⟩, {}), (⟨"a::B.rs", "C", []⟩, {})]
    (∀ j ∈ jobs, j.1.IsOrdinary) ∧
      (d.emitAll fs jobs).2.2.get? ["target", "out", "a", "B.rs"] =
        some (.text (CodeUnit.render ⟨"a", "B", []⟩)) ∧
      Accounts d fs (accepted (d.emitAll fs jobs).1) (d.emitAll fs jobs).2.1
        (d.emitAll fs jobs).2.2 :=
  ⟨by decide, by decide +kernel, (emitAll_accounts { path := "/target/out" } { start := ["demo"] }
    [(⟨"a", "B", []⟩, {}), (⟨"a", "B", []⟩, {}), (⟨"a::B.rs", "C", []⟩, {})] rfl
    (by decide)).1⟩

end OutputDirectory

end CommandBot
