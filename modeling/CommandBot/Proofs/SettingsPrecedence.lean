import CommandBot.Proofs.LayeredTrees
import Mathlib.Data.List.Forall2

/-
  Which source the settings of a run come from. `Leaf` names the single values of settings, and
  `sources` all that gives some, in the order in which later ones win. Readers take the data that
  stand at their names and nothing else (`reads_settings`), so loaded settings have for each leaf
  what the last source gives that gives something (`load_by_last_source`).
-/

namespace CommandBot

/-! ## Leaves -/

/-- A single value of settings. -/
inductive Leaf where
  | outDir
  | announcesSources
  | level
  | layout
  | destination
  | filePath
  /-- the level for one module -/
  | filter (target : String)
  | showsThreads
  | showsLocations

namespace Leaf

/-- The tables on the way to a leaf. -/
def way : Leaf → List String
  | .outDir => []
  | .announcesSources => []
  | .filter _ => ["logging", "filters"]
  | _ => ["logging"]

/-- The name of a leaf in its table. -/
def name : Leaf → String
  | .outDir => "out_dir"
  | .announcesSources => "rerun_if_changed"
  | .level => "level"
  | .layout => "format"
  | .destination => "output"
  | .filePath => "file_path"
  | .filter target => target
  | .showsThreads => "thread_ids"
  | .showsLocations => "file_location"

/-- What entries give for a leaf. -/
def of? (ℓ : Leaf) (es : List (String × Datum)) : Option Datum := Datum.at? es ℓ.way ℓ.name

end Leaf

/-- The value of settings for a leaf, as a piece of data. -/
def Settings.leaf? (s : Settings) : Leaf → Option Datum
  | .outDir => s.outDir.map .text
  | .announcesSources => some (.truth s.announcesSources)
  | .level => some (.text s.logging.level.name)
  | .layout => some (.text s.logging.layout.name)
  | .destination => some (.text s.logging.destination.name)
  | .filePath => s.logging.filePath.map .text
  | .filter target => (s.logging.filters.lookup target).map fun level => .text level.name
  | .showsThreads => some (.truth s.logging.showsThreads)
  | .showsLocations => some (.truth s.logging.showsLocations)

/-- Settings give all their leaves, and no others. -/
theorem Settings.of?_entries (s : Settings) (ℓ : Leaf) : ℓ.of? s.entries = s.leaf? ℓ := by
  obtain ⟨outDir, announcesSources, level, layout, destination, filePath, filters, threads,
    locations⟩ := s
  cases ℓ with
  | filter target =>
    have hfilters : (filters.map fun f => (f.1, Datum.text f.2.name)).lookup target =
        (filters.lookup target).map fun level => .text level.name :=
      lookup_map_snd (fun level : Log.Level => Datum.text level.name) filters target
    cases outDir <;> cases filePath <;> exact hfilters
  | _ => cases outDir <;> cases filePath <;> rfl

/-! ## Readers -/

/-- Data as a reader spells them: a single character is a text. -/
def Datum.spelled : Datum → Datum
  | .character c => .text (String.ofList [c])
  | d => d

/-- What is read where something stands, or nothing. -/
inductive Reads (missing : Option Datum) : Option (Option Datum) → Option Datum → Prop
  | missing : Reads missing none missing
  | found (d : Datum) : Reads missing (some (some d)) (some d.spelled)

namespace Extraction

variable {α : Type} {read : Reader α} {spell : α → Option Datum}

/-- A reader accepts nothing but data that spell what it gives. -/
def Spells (read : Reader α) (spell : α → Option Datum) : Prop :=
  ∀ path t a, read path t = .ok a → ∃ d, t.plain? = some d ∧ spell a = some d.spelled

theorem spells_truth : Spells truth fun b => some (.truth b) := by
  intro path t b h
  unfold truth at h
  split at h
  · cases h
    exact ⟨_, rfl, rfl⟩
  · cases h

theorem spells_filePath : Spells filePath fun s => some (.text s) := by
  intro path t s h
  unfold filePath at h
  split at h
  · cases h
    exact ⟨_, rfl, rfl⟩
  · cases h
    exact ⟨_, rfl, rfl⟩
  · cases h

theorem spells_choice (what : String) (all : List α) (name : α → String) :
    Spells (choice what all name) fun a => some (.text (name a)) := by
  intro path t a h
  unfold choice at h
  split at h
  · split at h
    · rename_i found hfind
      cases h
      have hname := List.find?_some hfind
      rw [beq_iff_eq] at hname
      exact ⟨_, rfl, congrArg (some <| Datum.text ·) hname⟩
    · cases h
  · split at h
    · cases h
    · split at h
      · cases h
      · cases h
  · cases h

theorem spells_given {spell : α → Datum} (h : Spells read fun a => some (spell a)) :
    Spells (given read) fun o => o.map spell := by
  intro path t o ho
  unfold given at ho
  cases hread : read path t with
  | error m =>
    rw [hread] at ho
    cases ho
  | ok a =>
    rw [hread] at ho
    cases ho
    exact h path t a hread

theorem field_cases {es : List (String × Tree)} {path : List String} {name : String}
    {missing a : α} (h : field es path name missing read = .ok a) :
    (es.lookup name = none ∧ a = missing) ∨
      ∃ t, es.lookup name = some t ∧ read (path ++ [name]) t = .ok a := by
  unfold field at h
  split at h
  · exact .inr ⟨_, ‹_›, h⟩
  · cases h
    exact .inl ⟨‹_›, rfl⟩

/-- A field is what stands at its name, or what stands for it where it is missing. -/
theorem reads_field (hread : Spells read spell) {es : List (String × Tree)} {path : List String}
    {name : String} {missing a : α} (h : field es path name missing read = .ok a) :
    Reads (spell missing) (Tree.view es [] name) (spell a) := by
  rw [Tree.view]
  rcases field_cases h with ⟨hlookup, rfl⟩ | ⟨t, hlookup, ht⟩
  · rw [hlookup]
    exact .missing
  · obtain ⟨d, hd, hspell⟩ := hread _ t a ht
    rw [hlookup, hspell, Option.map_some, hd]
    exact .found d

theorem exists_of_bind {ε β : Type} {x : Except ε α} {f : α → Except ε β} {b : β}
    (h : x >>= f = .ok b) : ∃ a, x = .ok a ∧ f a = .ok b := by
  cases x with
  | error e => cases h
  | ok a => exact ⟨a, rfl, h⟩

/-! ### Filters -/

theorem forall₂_of_mapM {ε β : Type} {f : α → Except ε β} {xs : List α} {ys : List β}
    (h : xs.mapM f = .ok ys) : List.Forall₂ (fun x y => f x = .ok y) xs ys := by
  induction xs generalizing ys with
  | nil =>
    cases h
    exact .nil
  | cons x xs ih =>
    rw [List.mapM_cons] at h
    obtain ⟨y, hy, h⟩ := exists_of_bind h
    obtain ⟨rest, hrest, h⟩ := exists_of_bind h
    cases h
    exact .cons hy (ih hrest)

/-- Levels that were read from some trees, each under the name of its tree. -/
def LevelsOf (path : List String) (es : List (String × Tree)) (fs : List (String × Log.Level)) :
    Prop :=
  List.Forall₂ (fun e f => level (path ++ [e.1]) e.2 = .ok f.2 ∧ f.1 = e.1) es fs

section

variable {path : List String} {es : List (String × Tree)} {fs : List (String × Log.Level)}

theorem levelsOf_of_filters {s : Provenance} (h : filters path (.table s es) = .ok fs) :
    LevelsOf path (Tree.inOrder es) fs := by
  rw [filters] at h
  refine (forall₂_of_mapM h).imp fun e f hf => ?_
  cases hlevel : level (path ++ [e.1]) e.2 with
  | error m =>
    rw [hlevel] at hf
    cases hf
  | ok l =>
    rw [hlevel] at hf
    cases hf
    exact ⟨rfl, rfl⟩

theorem LevelsOf.names_eq (h : LevelsOf path es fs) : fs.map Prod.fst = es.map Prod.fst := by
  induction h with
  | nil => rfl
  | cons hfirst _ ih => rw [List.map_cons, List.map_cons, hfirst.2, ih]

theorem LevelsOf.reads (h : LevelsOf path es fs) (target : String) :
    Reads none ((es.lookup target).map Tree.plain?)
      ((fs.lookup target).map fun level => .text level.name) := by
  induction h with
  | nil => exact .missing
  | @cons e f es fs hfirst _ ih =>
    rw [List.lookup_cons, List.lookup_cons, hfirst.2]
    split
    · obtain ⟨d, hd, hspell⟩ : ∃ d, e.2.plain? = some d ∧
          some (Datum.text f.2.name) = some d.spelled := spells_choice _ _ _ _ _ _ hfirst.1
      rw [Option.map_some, Option.map_some, hd, hspell]
      exact .found d
    · exact ih

/-- Each filter is what stands at its name, and each name has one. -/
theorem reads_filters {s : Provenance} (hnodup : (es.map Prod.fst).Nodup)
    (h : filters path (.table s es) = .ok fs) : (fs.map Prod.fst).Nodup ∧ ∀ target,
      Reads none (Tree.view es [] target)
        ((fs.lookup target).map fun level => .text level.name) := by
  have hlevels := levelsOf_of_filters h
  have hperm : (Tree.inOrder es).Perm es := List.mergeSort_perm _ _
  refine ⟨?_, fun target => ?_⟩
  · rw [hlevels.names_eq]
    exact (hperm.map Prod.fst).nodup_iff.mpr hnodup
  · rw [Tree.view, ← lookup_eq_of_perm hperm hnodup]
    exact hlevels.reads target

end

/-! ### All leaves -/

/-- Preferences that are read have for each leaf what stands at it. -/
theorem reads_preferencesIn {path : List String} {es : List (String × Tree)}
    {p : Log.Preferences} (htabular : Tree.Tabular es ["filters"])
    (h : preferencesIn path es = .ok p) : (p.filters.map Prod.fst).Nodup ∧
      ∀ (c : Settings) (ℓ : Leaf) (way : List String), c.logging = p → ℓ.way = "logging" :: way →
        Reads (({} : Settings).leaf? ℓ) (Tree.view es way ℓ.name) (c.leaf? ℓ) := by
  unfold preferencesIn at h
  obtain ⟨showsLocations, hlocations, h⟩ := exists_of_bind h
  obtain ⟨file, hfile, h⟩ := exists_of_bind h
  obtain ⟨filters, hfilters, h⟩ := exists_of_bind h
  obtain ⟨layout, hlayout, h⟩ := exists_of_bind h
  obtain ⟨level, hlevel, h⟩ := exists_of_bind h
  obtain ⟨destination, hdestination, h⟩ := exists_of_bind h
  obtain ⟨showsThreads, hthreads, h⟩ := exists_of_bind h
  cases h
  have hread : (filters.map Prod.fst).Nodup ∧ ∀ target, Reads none
      (Tree.view es ["filters"] target)
      ((filters.lookup target).map fun level => .text level.name) := by
    rcases field_cases hfilters with ⟨hlookup, rfl⟩ | ⟨t, hlookup, ht⟩
    · refine ⟨List.nodup_nil, fun target => ?_⟩
      rw [Tree.view_of_lookup_none hlookup]
      exact .missing
    · obtain ⟨s, inner, rfl, hinner⟩ := htabular.2 t hlookup
      simp only [Tree.view_of_lookup_table hlookup]
      exact reads_filters hinner ht
  refine ⟨hread.1, fun c ℓ way hc hway => ?_⟩
  obtain ⟨outDir, announcesSources, logging⟩ := c
  subst hc
  cases ℓ with
  | outDir => cases hway
  | announcesSources => cases hway
  | level =>
    cases hway
    exact reads_field (spells_choice _ _ _) hlevel
  | layout =>
    cases hway
    exact reads_field (spells_choice _ _ _) hlayout
  | destination =>
    cases hway
    exact reads_field (spells_choice _ _ _) hdestination
  | filePath =>
    cases hway
    exact reads_field (spells_given spells_filePath) hfile
  | filter target =>
    cases hway
    exact hread.2 target
  | showsThreads =>
    cases hway
    exact reads_field spells_truth hthreads
  | showsLocations =>
    cases hway
    exact reads_field spells_truth hlocations

/-- Settings that are read have for each leaf what stands at it, and each filter once. -/
theorem reads_settings {es : List (String × Tree)} {c : Settings}
    (htabular : Tree.Tabular es ["logging", "filters"]) (h : settings es = .ok c) :
    (c.logging.filters.map Prod.fst).Nodup ∧ ∀ ℓ : Leaf,
      Reads (({} : Settings).leaf? ℓ) (Tree.view es ℓ.way ℓ.name) (c.leaf? ℓ) := by
  unfold settings at h
  obtain ⟨logging, hlogging, h⟩ := exists_of_bind h
  obtain ⟨outDir, houtDir, h⟩ := exists_of_bind h
  obtain ⟨announcesSources, hannounces, h⟩ := exists_of_bind h
  cases h
  have hread : (logging.filters.map Prod.fst).Nodup ∧ ∀ (ℓ : Leaf) (way : List String),
      ℓ.way = "logging" :: way → Reads (({} : Settings).leaf? ℓ)
        (Tree.view es ("logging" :: way) ℓ.name)
        (Settings.leaf? ⟨outDir, announcesSources, logging⟩ ℓ) := by
    rcases field_cases hlogging with ⟨hlookup, rfl⟩ | ⟨t, hlookup, ht⟩
    · refine ⟨List.nodup_nil, fun ℓ way hway => ?_⟩
      rw [Tree.view_of_lookup_none hlookup]
      cases ℓ with
      | outDir => cases hway
      | announcesSources => cases hway
      | _ => exact .missing
    · obtain ⟨s, inner, rfl, hinner⟩ := htabular.2 t hlookup
      obtain ⟨hnodup, hleaves⟩ := reads_preferencesIn hinner ht
      refine ⟨hnodup, fun ℓ way hway => ?_⟩
      rw [Tree.view_of_lookup_table hlookup]
      exact hleaves _ ℓ way rfl hway
  refine ⟨hread.1, fun ℓ => ?_⟩
  cases ℓ with
  | outDir => exact reads_field (spells_given spells_filePath) houtDir
  | announcesSources => exact reads_field spells_truth hannounces
  | _ => exact hread.2 _ _ rfl

end Extraction

/-! ## Sources -/

namespace Datum

def isTable : Datum → Bool
  | .table _ => true
  | _ => false

theorem isTable_eq_true_iff {d : Datum} : d.isTable = true ↔ ∃ inner, d = .table inner := by
  cases d <;> simp [isTable]

end Datum

/-- Entries give nothing but tables where the tables of settings stand. -/
structure LeavesTables (es : List (String × Datum)) : Prop where
  logging : ∀ d ∈ Datum.at? es [] "logging", d.isTable = true
  filters : ∀ d ∈ Datum.at? es ["logging"] "filters", d.isTable = true

instance (es : List (String × Datum)) : Decidable (LeavesTables es) :=
  decidable_of_iff ((∀ d ∈ Datum.at? es [] "logging", d.isTable = true) ∧
    ∀ d ∈ Datum.at? es ["logging"] "filters", d.isTable = true)
    ⟨fun h => ⟨h.1, h.2⟩, fun h => ⟨h.logging, h.filters⟩⟩

section

variable {es : List (String × Datum)} (s : Provenance)

theorem tabular_ofEntries_nil (h : (Datum.table es).NamesOnce) :
    Tree.Tabular (Tree.ofEntries s es) [] := by
  rw [Tree.Tabular, Tree.names_ofEntries]
  exact h.nodup

/-- One more table at the front of a way. -/
theorem tabular_ofEntries_cons {step : String} {way : List String}
    (h : (Datum.table es).NamesOnce) (hstep : ∀ d ∈ es.lookup step, d.isTable = true)
    (hrest : ∀ inner, es.lookup step = some (.table inner) → (Datum.table inner).NamesOnce →
      Tree.Tabular (Tree.ofEntries s inner) way) :
    Tree.Tabular (Tree.ofEntries s es) (step :: way) := by
  refine ⟨tabular_ofEntries_nil s h, fun t ht => ?_⟩
  rw [Tree.lookup_ofEntries] at ht
  obtain ⟨d, hd, rfl⟩ := Option.map_eq_some_iff.mp ht
  obtain ⟨inner, rfl⟩ := Datum.isTable_eq_true_iff.mp (hstep d hd)
  have hinner := h.inner ((lookup_eq_some_iff_mem h.nodup).mp hd)
  exact ⟨s, Tree.ofEntries s inner, by rw [Tree.ofDatum], hrest inner hd hinner⟩

/-- Where entries leave the tables, there are tables on the way to every leaf. -/
theorem LeavesTables.tabular (h : LeavesTables es) (hnames : (Datum.table es).NamesOnce) :
    Tree.Tabular (Tree.ofEntries s es) ["logging", "filters"] := by
  refine tabular_ofEntries_cons s hnames h.logging fun logging hlogging hlogs => ?_
  refine tabular_ofEntries_cons s hlogs (fun d hd => h.filters d ?_) fun filters _ hfilters =>
    tabular_ofEntries_nil s hfilters
  rw [Datum.at?, hlogging]
  exact hd

end

namespace SettingsLoader

/-- What the file gives that is loaded, if there is one. -/
def fileEntries (l : SettingsLoader) (w : Surroundings) : List (List (String × Datum)) :=
  match l.choose w with
  | .ok (some f) => (readFile w.files f).toOption.toList
  | _ => []

/-- What the variables give, each for itself, if they are looked at. -/
def variableEntries (l : SettingsLoader) (w : Surroundings) : List (List (String × Datum)) :=
  if l.usesEnvironment then w.env.filterMap Variable.setting? else []

/-- All that gives settings, the later ones over the earlier ones: defaults, a file, variables, and
overrides. -/
def sources (l : SettingsLoader) (w : Surroundings) : List (List (String × Datum)) :=
  Settings.entries {} :: l.fileEntries w ++ l.variableEntries w ++ l.overrides.map Settings.entries

/-- What the last source gives for a leaf that gives something. -/
def lastGiven? (l : SettingsLoader) (w : Surroundings) (ℓ : Leaf) : Option Datum :=
  (l.sources w).reverse.findSome? ℓ.of?

/-- Which file is loaded: the one that is asked for, or else the first one that is there of those
that are looked for. -/
inductive Chooses (l : SettingsLoader) (w : Surroundings) : Option SettingsFile → Prop
  | asked {path : String} (hfile : l.file = some path) (hthere : w.files.exists_ path = true) :
    Chooses l w (some ⟨path, path⟩)
  | found {before after : List SettingsFile} {f : SettingsFile} (hfile : l.file = none)
    (hcandidates : l.candidates w = before ++ f :: after)
    (hthere : w.files.exists_ f.path = true)
    (habsent : ∀ f' ∈ before, w.files.exists_ f'.path = false) : Chooses l w (some f)
  | nothing (hfile : l.file = none)
    (habsent : ∀ f ∈ l.candidates w, w.files.exists_ f.path = false) : Chooses l w none

theorem chooses_of_choose {l : SettingsLoader} {w : Surroundings} {chosen : Option SettingsFile}
    (h : l.choose w = .ok chosen) : l.Chooses w chosen := by
  unfold choose at h
  cases hfile : l.file with
  | some path =>
    rw [hfile] at h
    dsimp only at h
    split at h
    · cases h
      exact .asked hfile ‹_›
    · cases h
  | none =>
    rw [hfile] at h
    cases h
    cases hfind : (l.candidates w).find? fun f => w.files.exists_ f.path with
    | none =>
      exact .nothing hfile fun f hf => Bool.eq_false_iff.mpr (List.find?_eq_none.mp hfind f hf)
    | some f =>
      obtain ⟨hthere, before, after, hcandidates, habsent⟩ := List.find?_eq_some_iff_append.mp hfind
      exact .found hfile hcandidates hthere fun f' hf' => by simpa using habsent f' hf'

theorem namesOnce_readFile {fs : Files} {f : SettingsFile} {es : List (String × Datum)}
    (h : readFile fs f = .ok es) : (Datum.table es).NamesOnce := by
  unfold readFile at h
  split at h
  · cases h
  · split at h
    · cases h
      exact .nil
    · split at h
      · cases h
      · split at h
        · rename_i hparse
          cases h
          exact Toml.namesOnce_of_parse? hparse
        · cases h

/-- Every source has each name once, if the filters of the overrides do. -/
theorem namesOnce_of_mem_sources {l : SettingsLoader} {w : Surroundings}
    (hfilters : ∀ s ∈ l.overrides, (s.logging.filters.map Prod.fst).Nodup)
    {es : List (String × Datum)} (h : es ∈ l.sources w) : (Datum.table es).NamesOnce := by
  rcases List.mem_append.mp h with h | h
  · rcases List.mem_append.mp h with h | h
    · rcases List.mem_cons.mp h with rfl | h
      · exact Settings.namesOnce_entries List.nodup_nil
      · unfold fileEntries at h
        split at h
        · cases hread : readFile w.files _ with
          | error e =>
            rw [hread] at h
            cases h
          | ok es' =>
            rw [hread] at h
            rw [List.mem_singleton.mp h]
            exact namesOnce_readFile hread
        · cases h
    · unfold variableEntries at h
      split at h
      · obtain ⟨v, -, hv⟩ := List.mem_filterMap.mp h
        exact Variable.namesOnce_of_setting? hv
      · cases h
  · obtain ⟨s, hs, rfl⟩ := List.mem_map.mp h
    exact Settings.namesOnce_entries (hfilters s hs)

/-! ### Layers -/

theorem shows_ofAll {way : List String} {s : Provenance} {sources : List (List (String × Datum))}
    (h : ∀ es ∈ sources, Tree.Tabular (Tree.ofEntries s es) way) :
    Tree.Shows way (Layer.ofAll s sources) sources := by
  have hshows := Tree.Shows.foldl h (.nil way)
  rwa [List.foldl_map] at hshows

/-- All layers together show all sources. -/
theorem shows_merged {l : SettingsLoader} {w : Surroundings} {way : List String}
    (h : ∀ es ∈ l.sources w, ∀ s, Tree.Tabular (Tree.ofEntries s es) way) (path : String) :
    Tree.Shows way (merged (l.layers w.env ((l.fileEntries w).map (Layer.ofFile path))))
      (l.sources w) := by
  simp only [sources, List.mem_append, List.mem_cons, or_imp, forall_and, forall_eq] at h
  obtain ⟨⟨⟨hdefaults, hfile⟩, hvariables⟩, hoverrides⟩ := h
  have hbottom : Tree.Shows way (Tree.mergeEntries [] Layer.defaults) [Settings.entries {}] :=
    (Tree.Shows.nil way).merge (.single (hdefaults _))
  have hbelow := Tree.Shows.foldl (fun es hes => hfile es hes (.file path)) hbottom
  have hmiddle : Tree.Shows way
      ((if l.usesEnvironment then [Layer.ofVariables w.env] else []).foldl Tree.mergeEntries
        (((l.fileEntries w).map (Layer.ofFile path)).foldl Tree.mergeEntries
          (Tree.mergeEntries [] Layer.defaults)))
      (Settings.entries {} :: l.fileEntries w ++ l.variableEntries w) := by
    have hlayer := shows_ofAll fun es hes => hvariables es hes .environment
    unfold variableEntries at hlayer ⊢
    by_cases huses : l.usesEnvironment = true
    · simp only [if_pos huses] at hlayer ⊢
      exact hbelow.merge hlayer
    · simp only [if_neg huses, List.append_nil]
      exact hbelow
  have hall := hmiddle.merge (shows_ofAll fun es hes => hoverrides es hes .override)
  rw [merged, layers, List.foldl_append, List.foldl_append, List.foldl_cons]
  exact hall

/-! ### Loading -/

/-- Once a file is chosen, what is logged on the way has no part in what is loaded. -/
theorem value_load {l : SettingsLoader} {w : Surroundings} {chosen : Option SettingsFile}
    (h : l.choose w = .ok chosen) :
    (l.load w).value = l.conclude w.env (fileLayer w.files chosen) := by
  have hvariables : ∀ (u : Bool) (r : Except SettingsFault Settings)
      (m : Logged (Except SettingsFault Settings)), m.value = r →
        (if u = true then Logged.log variablesEvent >>= fun _ => m else m).value = r := by
    intro u r m hm
    cases u <;> exact hm
  unfold load
  rw [h]
  dsimp only
  rw [Logged.value_bind]
  cases hfile : fileLayer w.files chosen with
  | error e =>
    dsimp only
    split
    · rfl
    · refine hvariables _ _ _ ?_
      cases l.conclude w.env (.error e) <;> rfl
  | ok file =>
    refine hvariables _ _ _ ?_
    cases l.conclude w.env (.ok file) <;> rfl

/-- Settings that are loaded are those that all layers give, and can be used. -/
theorem of_load_eq_ok {l : SettingsLoader} {w : Surroundings} {c : Settings}
    (h : (l.load w).value = .ok c) : ∃ chosen file, l.choose w = .ok chosen ∧
      fileLayer w.files chosen = .ok file ∧
      Extraction.settings (merged (l.layers w.env file)) = .ok c ∧ c.check = .ok () := by
  cases hchosen : l.choose w with
  | error e =>
    unfold load at h
    rw [hchosen] at h
    cases h
  | ok chosen =>
    rw [value_load hchosen] at h
    obtain ⟨file, hfile, h⟩ := Extraction.exists_of_bind h
    obtain ⟨s, hextract, h⟩ := Extraction.exists_of_bind h
    obtain ⟨⟨⟩, hcheck, h⟩ := Extraction.exists_of_bind h
    cases h
    refine ⟨chosen, file, rfl, hfile, ?_, hcheck⟩
    unfold extract at hextract
    split at hextract
    · cases hextract
    · rename_i hsettings
      cases hextract
      exact hsettings

/-- The layer of the file that is loaded, and what it gives. -/
theorem fileLayer_cases {l : SettingsLoader} {w : Surroundings} {chosen : Option SettingsFile}
    {file : List Layer} (hchosen : l.choose w = .ok chosen)
    (hfile : fileLayer w.files chosen = .ok file) :
    chosen.toList.map (readFile w.files) = (l.fileEntries w).map .ok ∧
      ∃ path, file = (l.fileEntries w).map (Layer.ofFile path) := by
  unfold fileEntries
  rw [hchosen]
  cases chosen with
  | none =>
    cases hfile
    exact ⟨rfl, "", rfl⟩
  | some f =>
    dsimp only
    rw [fileLayer] at hfile
    cases hread : readFile w.files f with
    | error e =>
      rw [hread] at hfile
      cases hfile
    | ok es =>
      rw [hread] at hfile
      cases hfile
      refine ⟨?_, spelled f.path, rfl⟩
      rw [Option.toList_some, List.map_singleton, hread]
      rfl

end SettingsLoader

/-- What is read is what is given, if nothing stands for what is missing where nothing is given. -/
theorem Reads.eq_spelled {missing read given : Option Datum}
    (h : Reads missing (given.map Datum.plain?) read) (hmissing : given = none → missing = none) :
    read = given.map Datum.spelled := by
  cases given with
  | none =>
    cases h
    exact hmissing rfl
  | some d =>
    rw [Option.map_some] at h
    generalize hplain : d.plain? = p at h
    cases h with
    | found d' =>
      have hd : d = d' := by cases d <;> first | exact Option.some.inj hplain | cases hplain
      rw [hd, Option.map_some]

namespace SettingsLoader

/-- Loaded settings can be used, and each leaf of them has the value of the last source that gives
one: defaults, the file, variables, then overrides, in order. At most one file is loaded. Overrides
give all leaves that they have. -/
theorem load_by_last_source {l : SettingsLoader} {w : Surroundings} {c : Settings}
    (hfilters : ∀ s ∈ l.overrides, (s.logging.filters.map Prod.fst).Nodup)
    (htables : ∀ es ∈ l.sources w, LeavesTables es) (hload : (l.load w).value = .ok c) :
    c.check = .ok () ∧
      (∃ chosen, l.Chooses w chosen ∧
        chosen.toList.map (readFile w.files) = (l.fileEntries w).map .ok) ∧
      (c.logging.filters.map Prod.fst).Nodup ∧
      (∀ ℓ, c.leaf? ℓ = (l.lastGiven? w ℓ).map Datum.spelled) ∧
      ∀ s ∈ l.overrides, ∀ ℓ : Leaf, ℓ.of? s.entries = s.leaf? ℓ := by
  obtain ⟨chosen, file, hchosen, hfile, hsettings, hcheck⟩ := of_load_eq_ok hload
  obtain ⟨hread, path, rfl⟩ := fileLayer_cases hchosen hfile
  have htabular : ∀ es ∈ l.sources w, ∀ s,
      Tree.Tabular (Tree.ofEntries s es) ["logging", "filters"] :=
    fun es hes s => (htables es hes).tabular s (namesOnce_of_mem_sources hfilters hes)
  have hshows := shows_merged htabular path
  obtain ⟨hnodup, hreads⟩ := Extraction.reads_settings hshows.tabular hsettings
  refine ⟨hcheck, ⟨chosen, chooses_of_choose hchosen, hread⟩, hnodup, fun ℓ => ?_,
    fun s _ => s.of?_entries⟩
  have hview : Tree.view (merged (l.layers w.env ((l.fileEntries w).map (Layer.ofFile path))))
      ℓ.way ℓ.name = (l.lastGiven? w ℓ).map Datum.plain? := by
    obtain ⟨more, hmore⟩ : ∃ more, ["logging", "filters"] = ℓ.way ++ more := by
      cases ℓ <;> exact ⟨_, rfl⟩
    have hway := shows_merged (fun es hes s => (hmore ▸ htabular es hes s).of_append) path
    exact hway.view_eq ℓ.name
  have hleaf := hreads ℓ
  rw [hview] at hleaf
  refine hleaf.eq_spelled fun hnone => ?_
  -- the defaults are among the sources, so they give nothing for this leaf
  have hdefault := List.findSome?_eq_none_iff.mp hnone (Settings.entries {})
    (List.mem_reverse.mpr (List.mem_cons_self ..))
  rwa [Settings.of?_entries] at hdefault

/-- A file that is found in the second of two directories, and two variables. -/
def layered : Surroundings where
  files := { entries := [(["conf"], .directory), (["conf", "magicord.toml"], .text
    "out_dir = \"gen\"\nlogging.format = \"pretty\"\n[logging.filters]\na = \"debug\"\n")] }
  env := [("MAGICORD_LOGGING__LEVEL", "debug"), ("MAGICORD_LOGGING__FILE_PATH", "'x'")]

/-- An override of defaults hides the format of the file and the level of a variable, and nothing
else. -/
theorem load_by_last_source_layered :
    let l : SettingsLoader := { searchPaths := ["none", "conf"], overrides := [{}] }
    let c : Settings :=
      { outDir := some "gen", logging := { filePath := some "x", filters := [("a", .debug)] } }
    (∀ s ∈ l.overrides, (s.logging.filters.map Prod.fst).Nodup) ∧
      (∀ es ∈ l.sources layered, LeavesTables es) ∧ (l.load layered).value = .ok c ∧
      (∃ chosen, l.Chooses layered chosen ∧
        chosen.toList.map (readFile layered.files) = (l.fileEntries layered).map .ok) ∧
      (l.sources layered).length = 5 ∧
      ∀ ℓ, c.leaf? ℓ = (l.lastGiven? layered ℓ).map Datum.spelled := by
  intro l c
  have hfilters : ∀ s ∈ l.overrides, (s.logging.filters.map Prod.fst).Nodup := by decide +kernel
  have htables : ∀ es ∈ l.sources layered, LeavesTables es := by decide +kernel
  have hload : (l.load layered).value = .ok c := by decide +kernel
  obtain ⟨-, hfile, -, hleaves, -⟩ := load_by_last_source hfilters htables hload
  exact ⟨hfilters, htables, hload, hfile, by decide +kernel, hleaves⟩

end SettingsLoader

end CommandBot
