import CommandBot.Settings.Extraction
import CommandBot.Settings.Variable
import CommandBot.Toml.Document

/-
  Data in which each table has each of its names once. Every source of settings gives such data: a
  document, since no name of it gets a value twice (`Toml.namesOnce_of_parse?`), a variable, since
  of a name that is repeated the last value is kept (`Variable.namesOnce_of_setting?`), and settings
  themselves (`Settings.namesOnce_entries`). `Scan.Yields` says of a scan what all that it gives is
  like.
-/

namespace CommandBot

/-- Each table that a path can lead to has each of its names once. -/
inductive Datum.NamesOnce : Datum → Prop
  | table {es : List (String × Datum)} (hnodup : (es.map Prod.fst).Nodup)
    (hinner : ∀ e ∈ es, NamesOnce e.2) : NamesOnce (.table es)
  | truth (b : Bool) : NamesOnce (.truth b)
  | unsigned (n : Nat) : NamesOnce (.unsigned n)
  | signed (i : Int) : NamesOnce (.signed i)
  | float (x : Binary64) : NamesOnce (.float x)
  | character (c : Char) : NamesOnce (.character c)
  | text (s : String) : NamesOnce (.text s)
  | list (items : List Datum) : NamesOnce (.list items)

namespace Datum.NamesOnce

theorem nil : NamesOnce (.table []) := .table List.nodup_nil nofun

theorem singleton {name : String} {d : Datum} (h : d.NamesOnce) : NamesOnce (.table [(name, d)]) :=
  .table (List.pairwise_singleton _ name) fun _ he => List.mem_singleton.mp he ▸ h

theorem nodup {es : List (String × Datum)} (h : NamesOnce (.table es)) :
    (es.map Prod.fst).Nodup := by
  cases h
  assumption

theorem inner {es : List (String × Datum)} (h : NamesOnce (.table es)) {e : String × Datum}
    (he : e ∈ es) : e.2.NamesOnce := by
  cases h with
  | table _ hinner => exact hinner e he

end Datum.NamesOnce

/-! ## What scans give -/

namespace Scan

variable {α β : Type} {P : α → Prop} {Q : β → Prop} {s t : Scan α}

/-- All that a scan gives is as `P` says. -/
def Yields (P : α → Prop) (s : Scan α) : Prop := ∀ cs a rest, s cs = some (a, rest) → P a

theorem yields_pure {a : α} (h : P a) : Yields P (pure a) := by
  intro cs b rest hb
  cases hb
  exact h

theorem yields_failure : Yields P failure := fun _ _ _ h => nomatch h

theorem yields_bind {next : α → Scan β} (hs : Yields P s) (hnext : ∀ a, P a → Yields Q (next a)) :
    Yields Q (s >>= next) := by
  intro cs b rest hb
  obtain ⟨⟨a, middle⟩, ha, hnb⟩ := Option.bind_eq_some_iff.mp hb
  exact hnext a (hs cs a middle ha) middle b rest hnb

/-- Whatever the first scan gives, it is the second one that counts. -/
theorem yields_after {next : α → Scan β} (hnext : ∀ a, Yields Q (next a)) :
    Yields Q (s >>= next) :=
  yields_bind (P := fun _ => True) (fun _ _ _ _ => trivial) fun a _ => hnext a

theorem yields_map {f : α → β} (hs : Yields (fun a => Q (f a)) s) : Yields Q (f <$> s) :=
  yields_bind hs fun _ ha => yields_pure ha

theorem yields_orElse (hs : Yields P s) (ht : Yields P t) : Yields P (s <|> t) := by
  intro cs a rest ha
  have heither : ((s cs).orElse fun _ => t cs) = some (a, rest) := ha
  cases hcs : s cs with
  | some r =>
    rw [hcs] at heither
    exact hs cs a rest (hcs.trans heither)
  | none =>
    rw [hcs] at heither
    exact ht cs a rest heither

theorem yields_ite {p : Prop} [Decidable p] (hs : p → Yields P s) (ht : ¬ p → Yields P t) :
    Yields P (if p then s else t) := by
  split
  · exact hs ‹_›
  · exact ht ‹_›

/-- What a whole text means is as `P` says. -/
theorem Yields.all? (h : Yields P s) {cs : List Char} {a : α} (ha : Scan.all? s cs = some a) :
    P a :=
  h cs a [] (all?_eq_some.mp ha)

end Scan

open Scan

/-! ## Documents -/

namespace Toml

/-! ### Values -/

theorem yields_bounded (i : Int) : Yields Datum.NamesOnce (bounded i) :=
  yields_ite (fun _ => yields_pure (.signed i)) fun _ => yields_failure

theorem yields_integer : Yields Datum.NamesOnce integer := by
  have hbased : ∀ mark base test, Yields Datum.NamesOnce (based mark base test) :=
    fun _ _ _ => yields_after fun _ => yields_after fun _ => yields_bounded _
  have hdecimal : Yields Datum.NamesOnce decimal :=
    yields_after fun _ => yields_after fun _ => yields_bounded _
  exact yields_orElse (hbased _ _ _) (yields_orElse (hbased _ _ _)
    (yields_orElse (hbased _ _ _) hdecimal))

theorem yields_float : Yields Datum.NamesOnce float := by
  refine yields_after fun negative => yields_after fun whole => yields_after ?_
  rintro ⟨places, power⟩
  dsimp only
  split
  · exact yields_failure
  · exact yields_pure (.float _)

theorem yields_special : Yields Datum.NamesOnce special :=
  yields_after fun _ => yields_orElse (yields_after fun _ => yields_pure (.float _))
    (yields_after fun _ => yields_pure (.float _))

theorem yields_moment : Yields Datum.NamesOnce moment :=
  yields_after fun _ => yields_pure (.singleton (.text _))

theorem yields_scalar : Yields Datum.NamesOnce scalar := by
  refine yields_orElse (yields_map fun _ s _ _ => .text s) ?_
  refine yields_orElse (yields_after fun _ => yields_pure (.truth true)) ?_
  refine yields_orElse (yields_after fun _ => yields_pure (.truth false)) ?_
  exact yields_orElse yields_moment (yields_orElse yields_float
    (yields_orElse yields_special yields_integer))

/-! ### Entries -/

/-- Each table that a path can lead to has each of its names once. -/
inductive Entry.NamesOnce : Entry → Prop
  | value {d : Datum} (h : d.NamesOnce) : NamesOnce (.value d)
  | table {making : Making} {es : Entries} (hnodup : (es.map Prod.fst).Nodup)
    (hinner : ∀ e ∈ es, NamesOnce e.2) : NamesOnce (.table making es)
  | tables (latestFirst : List Entries) : NamesOnce (.tables latestFirst)

namespace Entries

/-- Entries that have each name once, and so in all tables among them. -/
structure NamesOnce (es : Entries) : Prop where
  nodup : (es.map Prod.fst).Nodup
  inner : ∀ e ∈ es, e.2.NamesOnce

theorem NamesOnce.nil : NamesOnce [] := ⟨List.nodup_nil, nofun⟩

theorem NamesOnce.table {es : Entries} (h : es.NamesOnce) (making : Making) :
    (Entry.table making es).NamesOnce := .table h.nodup h.inner

theorem namesOnce_of_table {es : Entries} {making : Making}
    (h : (Entry.table making es).NamesOnce) : es.NamesOnce := by
  cases h with
  | table hnodup hinner => exact ⟨hnodup, hinner⟩

theorem NamesOnce.of_lookup {es : Entries} (h : es.NamesOnce) {name : String} {e : Entry}
    (he : es.lookup name = some e) : e.NamesOnce := by
  obtain ⟨before, after, hes, -⟩ := List.lookup_eq_some_iff.mp he
  refine h.inner (name, e) ?_
  rw [hes]
  exact List.mem_append_right _ List.mem_cons_self

theorem NamesOnce.set {es : Entries} (h : es.NamesOnce) {e : Entry} (he : e.NamesOnce)
    (name : String) : (es.set name e).NamesOnce where
  nodup := by
    rw [Entries.set, List.map_cons, List.nodup_cons]
    refine ⟨?_, h.nodup.sublist (List.filter_sublist.map _)⟩
    rintro hmem
    obtain ⟨f, hf, hname⟩ := List.mem_map.mp hmem
    have hother := (List.mem_filter.mp hf).2
    rw [hname, bne_self_eq_false] at hother
    cases hother
  inner := by
    intro f hf
    rcases List.mem_cons.mp hf with rfl | hf
    · exact he
    · exact h.inner f (List.mem_filter.mp hf).1

/-- A change at the end of a path keeps what the change itself keeps. -/
theorem NamesOnce.descend {making : Making} {mayEnter : Making → Bool}
    {change : Making → Entries → Option Entries}
    (hchange : ∀ m es es', change m es = some es' → es.NamesOnce → es'.NamesOnce)
    {path : List String} {m : Making} {es es' : Entries} (h : es.NamesOnce)
    (heq : Entries.descend making mayEnter change path m es = some es') : es'.NamesOnce := by
  induction path generalizing m es es' with
  | nil => exact hchange m es es' heq h
  | cons name rest ih =>
    rw [Entries.descend] at heq
    cases hlookup : es.lookup name with
    | none =>
      simp only [hlookup] at heq
      obtain ⟨inner, hinner, hset⟩ := Option.bind_eq_some_iff.mp heq
      cases hset
      exact h.set ((ih .nil hinner).table making) name
    | some e =>
      have he := h.of_lookup hlookup
      cases e with
      | value d =>
        simp only [hlookup] at heq
        cases heq
      | table m' inner =>
        simp only [hlookup] at heq
        split at heq
        · obtain ⟨inner', hinner, hset⟩ := Option.bind_eq_some_iff.mp heq
          cases hset
          exact h.set ((ih (namesOnce_of_table he) hinner).table m') name
        · cases heq
      | tables ts =>
        cases ts with
        | nil =>
          simp only [hlookup] at heq
          cases heq
        | cons latest earlier =>
          simp only [hlookup] at heq
          obtain ⟨latest', -, hset⟩ := Option.bind_eq_some_iff.mp heq
          cases hset
          exact h.set (.tables _) name

theorem NamesOnce.assign {path : List String} {name : String} {d : Datum} {es es' : Entries}
    (h : es.NamesOnce) (hd : d.NamesOnce) (heq : es.assign path name d = some es') :
    es'.NamesOnce := by
  refine h.descend (fun m inner inner' hset hinner => ?_) heq
  split at hset
  · cases hset
  · cases hset
    exact hinner.set (.value hd) name

theorem NamesOnce.openTable {path : List String} {name : String} {es es' : Entries}
    (h : es.NamesOnce) (heq : es.openTable path name = some es') : es'.NamesOnce := by
  refine h.descend (fun m inner inner' hset hinner => ?_) heq
  cases hlookup : inner.lookup name with
  | none =>
    simp only [hlookup] at hset
    cases hset
    exact hinner.set (NamesOnce.nil.table .header) name
  | some e =>
    have he := hinner.of_lookup hlookup
    simp only [hlookup] at hset
    split at hset
    · rename_i hcase
      cases hcase
    · rename_i below hcase
      cases hcase
      cases hset
      exact hinner.set ((namesOnce_of_table he).table .header) name
    · cases hset

theorem NamesOnce.openNext {path : List String} {name : String} {es es' : Entries}
    (h : es.NamesOnce) (heq : es.openNext path name = some es') : es'.NamesOnce := by
  refine h.descend (fun m inner inner' hset hinner => ?_) heq
  split at hset
  · cases hset
    exact hinner.set (.tables _) name
  · cases hset
    exact hinner.set (.tables _) name
  · cases hset

theorem NamesOnce.assignIn {table path : List String} {name : String} {d : Datum}
    {es es' : Entries} (h : es.NamesOnce) (hd : d.NamesOnce)
    (heq : es.assignIn table path name d = some es') : es'.NamesOnce :=
  h.descend (fun _ _ _ hassign hinner => hinner.assign hd hassign) heq

theorem data_eq_map (es : Entries) : Entries.data es = es.map fun e => (e.1, e.2.datum) := by
  induction es with
  | nil => rw [Entries.data, List.map_nil]
  | cons e es ih => rw [Entries.data, List.map_cons, ih]

end Entries

theorem Entry.NamesOnce.datum {e : Entry} (h : e.NamesOnce) : e.datum.NamesOnce := by
  induction h with
  | value h =>
    rw [Entry.datum]
    exact h
  | tables ts =>
    rw [Entry.datum]
    exact .list _
  | @table making es hnodup hinner ih =>
    rw [Entry.datum, Entries.data_eq_map]
    refine .table ?_ fun f hf => ?_
    · rw [List.map_map]
      exact hnodup
    · obtain ⟨e, he, rfl⟩ := List.mem_map.mp hf
      exact ih e he

theorem Entries.NamesOnce.data {es : Entries} (h : es.NamesOnce) :
    (Datum.table (Entries.data es)).NamesOnce := by
  have hdatum := (h.table .header).datum
  rwa [Entry.datum] at hdatum

/-! ### Tables and documents -/

theorem yields_assignment {value : Scan Datum} (hvalue : Yields Datum.NamesOnce value) :
    Yields (fun r => r.2.NamesOnce) (assignment value) :=
  yields_after fun _ => yields_after fun _ => yields_after fun _ => yields_after fun _ =>
    yields_bind hvalue fun _ hd => yields_pure hd

theorem yields_fields {value : Scan Datum} (hvalue : Yields Datum.NamesOnce value) (n : Nat)
    {es : Entries} (h : es.NamesOnce) : Yields Entries.NamesOnce (fields value n es) := by
  induction n generalizing es with
  | zero => exact yields_failure
  | succ n ih =>
    rw [fields]
    refine yields_after fun _ => yields_bind (yields_assignment hvalue) fun ⟨k, d⟩ hd => ?_
    dsimp only
    split
    · exact yields_failure
    · rename_i es' hassign
      have hes' := h.assign hd hassign
      refine yields_after fun _ => yields_after fun c => yields_ite (fun _ => ?_) fun _ => ?_
      · exact yields_after fun _ => ih hes'
      · exact yields_after fun _ => yields_pure hes'

theorem yields_inlineTable {value : Scan Datum} (hvalue : Yields Datum.NamesOnce value) :
    Yields Datum.NamesOnce (inlineTable value) := by
  refine yields_after fun _ => yields_after fun _ => yields_after fun c =>
    yields_ite (fun _ => ?_) fun _ => ?_
  · exact yields_after fun _ => yields_pure .nil
  · exact yields_after fun cs => yields_bind (yields_fields hvalue _ .nil) fun _ hes =>
      yields_pure hes.data

theorem yields_value (n : Nat) : Yields Datum.NamesOnce (value n) := by
  induction n with
  | zero => exact yields_scalar
  | succ n ih =>
    refine yields_orElse ?_ (yields_orElse (yields_inlineTable ih) yields_scalar)
    exact yields_after fun _ => yields_after fun _ => yields_after fun _ => yields_pure (.list _)

namespace Draft

theorem yields_header {opening closing : String}
    {open_ : List String → String → Entries → Option Entries}
    (hopen : ∀ path name es es', open_ path name es = some es' → es.NamesOnce → es'.NamesOnce)
    {d : Draft} (h : d.entries.NamesOnce) :
    Yields (fun d => d.entries.NamesOnce) (header opening closing open_ d) := by
  refine yields_after fun _ => yields_after fun _ => yields_after fun k => yields_after fun _ =>
    yields_after fun _ => ?_
  split
  · exact yields_pure (hopen _ _ _ _ ‹_› h)
  · exact yields_failure

theorem yields_assignmentTo {d : Draft} (h : d.entries.NamesOnce) :
    Yields (fun d => d.entries.NamesOnce) (assignmentTo d) := by
  refine yields_bind (yields_assignment (yields_value _)) fun ⟨k, v⟩ hv => ?_
  dsimp only
  split
  · exact yields_pure (h.assignIn hv ‹_›)
  · exact yields_failure

theorem yields_statement {d : Draft} (h : d.entries.NamesOnce) :
    Yields (fun d => d.entries.NamesOnce) (statement d) := by
  rw [statement]
  refine yields_after fun _ => yields_after fun cs => ?_
  split
  · exact yields_bind (yields_header (fun _ _ _ _ heq hes => hes.openNext heq) h) fun _ hd =>
      yields_pure hd
  · exact yields_bind (yields_header (fun _ _ _ _ heq hes => hes.openTable heq) h) fun _ hd =>
      yields_pure hd
  · exact yields_pure h
  · exact yields_ite (fun _ => yields_pure h) fun _ =>
      yields_bind (yields_assignmentTo h) fun _ hd => yields_pure hd

theorem yields_statements (n : Nat) {d : Draft} (h : d.entries.NamesOnce) :
    Yields (fun d => d.entries.NamesOnce) (statements n d) := by
  induction n generalizing d with
  | zero => exact yields_failure
  | succ n ih =>
    rw [statements]
    refine yields_bind (yields_statement h) fun d hd => yields_after fun _ => yields_after fun cs =>
      yields_ite (fun _ => yields_pure hd) fun _ => ih hd

end Draft

/-- A document gives data in which each table has each of its names once. -/
theorem namesOnce_of_parse? {s : String} {es : List (String × Datum)} (h : parse? s = some es) :
    (Datum.table es).NamesOnce := by
  obtain ⟨d, hd, rfl⟩ := Option.map_eq_some_iff.mp h
  exact ((Draft.yields_statements _ .nil).all? hd).data

end Toml

/-! ## Variables -/

namespace Variable

theorem yields_float : Yields Datum.NamesOnce float := by
  refine yields_after fun _ => yields_after fun _ => yields_after fun _ => yields_after fun _ => ?_
  refine yields_ite (fun _ => yields_after fun _ => ?_) fun _ => ?_
  · exact yields_after fun _ => yields_pure (.float _)
  · exact yields_after fun _ => yields_pure (.float _)

theorem yields_integer : Yields Datum.NamesOnce integer := by
  refine yields_after fun _ => yields_after fun _ => yields_ite (fun _ => ?_) fun _ => ?_
  · exact yields_pure (.unsigned _)
  · exact yields_ite (fun _ => yields_pure (.signed _)) fun _ => yields_failure

theorem namesOnce_free (cs : List Char) : (free cs).NamesOnce := by
  rw [free]
  cases hfloat : Scan.all? float cs with
  | some d => exact yields_float.all? hfloat
  | none =>
    cases hinteger : Scan.all? integer cs with
    | some d => exact yields_integer.all? hinteger
    | none => exact .text _

theorem yields_items {α : Type} {P : α → Prop} {item : Scan α} (hitem : Yields P item)
    (close : Char) (n : Nat) : Yields (fun as => ∀ a ∈ as, P a) (items item close n) := by
  induction n with
  | zero => exact yields_failure
  | succ n ih =>
    rw [items]
    refine yields_after fun _ => yields_ite (fun _ => ?_) fun _ => ?_
    · exact yields_after fun _ => yields_pure nofun
    · refine yields_bind hitem fun a ha => yields_after fun _ =>
        yields_ite (fun _ => ?_) fun _ => ?_
      · refine yields_after fun _ => yields_bind ih fun rest hrest => yields_pure ?_
        exact List.forall_mem_cons.mpr ⟨ha, hrest⟩
      · exact yields_after fun _ => yields_pure (List.forall_mem_singleton.mpr ha)

theorem yields_entry {value : Scan Datum} (hvalue : Yields Datum.NamesOnce value) :
    Yields (fun e => e.2.NamesOnce) (entry value) :=
  yields_after fun _ => yields_after fun _ => yields_after fun _ => yields_after fun _ =>
    yields_bind hvalue fun _ hd => yields_pure hd

/-- Of entries with one name the last one is kept. -/
theorem namesOnce_lastOfEach {es : List (String × Datum)} (h : ∀ e ∈ es, e.2.NamesOnce) :
    (Datum.table (lastOfEach es)).NamesOnce := by
  suffices hkept : ∀ kept, (Datum.table kept).NamesOnce → (Datum.table
      (es.foldl (fun kept e => kept.filter (fun f => f.1 != e.1) ++ [e]) kept)).NamesOnce from
    hkept [] .nil
  induction es with
  | nil => exact fun _ hkept => hkept
  | cons e es ih =>
    intro kept hkept
    refine ih (fun f hf => h f (List.mem_cons_of_mem e hf)) _ (.table ?_ ?_)
    · rw [List.map_append, List.map_singleton]
      refine List.nodup_append.mpr
        ⟨hkept.nodup.sublist (List.filter_sublist.map _), List.pairwise_singleton _ _, ?_⟩
      rintro name hname _ hother rfl
      obtain ⟨f, hf, rfl⟩ := List.mem_map.mp hname
      exact bne_iff_ne.mp (List.mem_filter.mp hf).2 (List.mem_singleton.mp hother)
    · intro f hf
      rcases List.mem_append.mp hf with hf | hf
      · exact hkept.inner (List.mem_filter.mp hf).1
      · rw [List.mem_singleton.mp hf]
        exact h e List.mem_cons_self

theorem yields_bare {value : Scan Datum} (hvalue : Yields Datum.NamesOnce value) :
    Yields Datum.NamesOnce (bare value) := by
  rw [bare]
  refine yields_after fun cs => ?_
  split
  · exact yields_after fun _ => yields_pure (.truth true)
  · exact yields_after fun _ => yields_pure (.truth false)
  · exact yields_after fun _ => yields_bind (yields_items (yields_entry hvalue) _ _) fun _ hes =>
      yields_pure (namesOnce_lastOfEach hes)
  · exact yields_after fun _ => yields_after fun _ => yields_pure (.list _)
  · exact yields_after fun _ => yields_pure (.text _)
  · exact yields_after fun _ => yields_after fun _ => yields_after fun _ =>
      yields_pure (.character _)
  · exact yields_after fun _ => yields_pure (namesOnce_free _)

theorem yields_value (n : Nat) : Yields Datum.NamesOnce (value n) := by
  induction n with
  | zero => exact yields_failure
  | succ n ih =>
    exact yields_after fun _ => yields_bind (yields_bare ih) fun _ hd => yields_after fun _ =>
      yields_pure hd

theorem namesOnce_datum (s : String) : (datum s).NamesOnce := by
  rw [datum]
  cases hvalue : Scan.all? (value (s.toList.length + 1)) s.toList with
  | some d => exact (yields_value _).all? hvalue
  | none => exact .text s

theorem namesOnce_nest {d : Datum} (h : d.NamesOnce) (path : List String) :
    (nest path d).NamesOnce := by
  induction path with
  | nil => exact h
  | cons name rest ih => exact .singleton ih

/-- A variable gives data in which each table has each of its names once. -/
theorem namesOnce_of_setting? {v : String × String} {es : List (String × Datum)}
    (h : setting? v = some es) : (Datum.table es).NamesOnce := by
  unfold setting? at h
  split at h
  · cases h
    exact .singleton (namesOnce_nest (namesOnce_datum v.2) _)
  · cases h

end Variable

/-! ## Settings -/

namespace Settings

/-- Settings give data in which each table has each of its names once, if their filters do. -/
theorem namesOnce_entries {s : Settings} (h : (s.logging.filters.map Prod.fst).Nodup) :
    (Datum.table s.entries).NamesOnce := by
  have hfilters :
      (Datum.table (s.logging.filters.map fun f => (f.1, .text f.2.name))).NamesOnce := by
    refine .table ?_ fun f hf => ?_
    · rw [List.map_map]
      exact h
    · obtain ⟨f', -, rfl⟩ := List.mem_map.mp hf
      exact .text _
  have hlogging : s.logging.datum.NamesOnce := by
    rw [Log.Preferences.datum]
    cases s.logging.filePath with
    | none =>
      refine .table (show ["level", "format", "output", "filters", "thread_ids",
        "file_location"].Nodup by decide) ?_
      simp [hfilters, Datum.NamesOnce.text, Datum.NamesOnce.truth]
    | some f =>
      refine .table (show ["level", "format", "output", "file_path", "filters", "thread_ids",
        "file_location"].Nodup by decide) ?_
      simp [hfilters, Datum.NamesOnce.text, Datum.NamesOnce.truth]
  rw [entries]
  cases s.outDir with
  | none =>
    refine .table (show ["rerun_if_changed", "logging"].Nodup by decide) ?_
    simp [hlogging, Datum.NamesOnce.truth]
  | some d =>
    refine .table (show ["out_dir", "rerun_if_changed", "logging"].Nodup by decide) ?_
    simp [hlogging, Datum.NamesOnce.text, Datum.NamesOnce.truth]

end Settings

end CommandBot
