import CommandBot.Proofs.NamesOnce
import CommandBot.Settings.Loader

/-
  What stands at a path in data that lie one over the other. A path is a way through tables and a
  name at its end. Where each layer has tables all along the way, a merge has at the end what the
  newer side has there, or else what the older one has (`view_mergeEntries`), and a stack of layers
  what the last source gives that gives something (`Shows.foldl`).
-/

namespace CommandBot

/-! ## Names -/

section

variable {α : Type}

/-- Where each name stands once, what is found is what stands there. -/
theorem lookup_eq_some_iff_mem {es : List (String × α)} (h : (es.map Prod.fst).Nodup)
    {name : String} {a : α} : es.lookup name = some a ↔ (name, a) ∈ es := by
  induction es with
  | nil => exact iff_of_false nofun List.not_mem_nil
  | cons e es ih =>
    obtain ⟨other, b⟩ := e
    rw [List.map_cons, List.nodup_cons] at h
    rw [List.lookup_cons, List.mem_cons, Prod.mk.injEq]
    by_cases hname : name = other
    · subst hname
      have habsent : (name, a) ∉ es := fun ha => h.1 (List.mem_map.mpr ⟨_, ha, rfl⟩)
      simp only [beq_self_eq_true, Option.some.injEq, true_and, habsent, or_false]
      exact eq_comm
    · have hfalse : (name == other) = false := beq_false_of_ne hname
      simp only [hfalse, hname, false_and, false_or]
      exact ih h.2

/-- The order of entries does not matter where each name stands once. -/
theorem lookup_eq_of_perm {es fs : List (String × α)} (hperm : es.Perm fs)
    (h : (fs.map Prod.fst).Nodup) (name : String) : es.lookup name = fs.lookup name := by
  have hes : (es.map Prod.fst).Nodup := (hperm.map Prod.fst).nodup_iff.mpr h
  refine Option.ext fun a => ?_
  rw [lookup_eq_some_iff_mem hes, lookup_eq_some_iff_mem h]
  exact hperm.mem_iff

/-- A change of all values, and none of the names. -/
theorem lookup_map_snd {β : Type} (f : α → β) (es : List (String × α)) (name : String) :
    (es.map fun e => (e.1, f e.2)).lookup name = (es.lookup name).map f := by
  induction es with
  | nil => rfl
  | cons e es ih =>
    rw [List.map_cons, List.lookup_cons, List.lookup_cons, ih]
    split <;> rfl

end

/-! ## Views -/

namespace Datum

/-- What entries have at the end of a way, under a name. -/
def at? : List (String × Datum) → List String → String → Option Datum
  | es, [], name => es.lookup name
  | es, step :: way, name =>
    match es.lookup step with
    | some (.table inner) => at? inner way name
    | _ => none

/-- Data that are no table. -/
def plain? : Datum → Option Datum
  | .table _ => none
  | d => some d

end Datum

namespace Tree

/-- What a tree is, if it is no table. -/
def plain? : Tree → Option Datum
  | .plain _ d => some d
  | .table _ _ => none

/-- Whether something stands at the end of a way under a name, and what it is, if it is no table. -/
def view : List (String × Tree) → List String → String → Option (Option Datum)
  | es, [], name => (es.lookup name).map plain?
  | es, step :: way, name =>
    match es.lookup step with
    | some (.table _ inner) => view inner way name
    | _ => none

/-- Nothing but tables stands along a way, and they have each name once. -/
def Tabular : List (String × Tree) → List String → Prop
  | es, [] => (es.map Prod.fst).Nodup
  | es, step :: way => (es.map Prod.fst).Nodup ∧
    ∀ t, es.lookup step = some t → ∃ s inner, t = .table s inner ∧ Tabular inner way

theorem Tabular.nodup {es : List (String × Tree)} {way : List String} (h : Tabular es way) :
    (es.map Prod.fst).Nodup := by
  cases way with
  | nil => exact h
  | cons step way => exact h.1

theorem tabular_nil (way : List String) : Tabular [] way := by
  cases way with
  | nil => exact List.nodup_nil
  | cons step way => exact ⟨List.nodup_nil, nofun⟩

theorem Tabular.of_append {es : List (String × Tree)} {way more : List String}
    (h : Tabular es (way ++ more)) : Tabular es way := by
  induction way generalizing es with
  | nil => exact Tabular.nodup h
  | cons step way ih =>
    refine ⟨h.1, fun t ht => ?_⟩
    obtain ⟨s, inner, rfl, hinner⟩ := h.2 t ht
    exact ⟨s, inner, rfl, ih hinner⟩

theorem view_of_lookup_none {es : List (String × Tree)} {step : String}
    (h : es.lookup step = none) {way : List String} {name : String} :
    view es (step :: way) name = none := by
  rw [view, h]

theorem view_of_lookup_table {es inner : List (String × Tree)} {step : String} {s : Provenance}
    (h : es.lookup step = some (.table s inner)) {way : List String} {name : String} :
    view es (step :: way) name = view inner way name := by
  rw [view, h]

theorem view_nil (way : List String) (name : String) : view [] way name = none := by
  cases way <;> rfl

/-! ### Data of one source -/

theorem plain?_ofDatum (s : Provenance) (d : Datum) : (ofDatum s d).plain? = d.plain? := by
  cases d <;> simp only [ofDatum] <;> rfl

theorem ofEntries_eq_map (s : Provenance) (es : List (String × Datum)) :
    ofEntries s es = es.map fun e => (e.1, ofDatum s e.2) := by
  induction es with
  | nil => rw [ofEntries, List.map_nil]
  | cons e es ih => rw [ofEntries, List.map_cons, ih]

theorem names_ofEntries (s : Provenance) (es : List (String × Datum)) :
    (ofEntries s es).map Prod.fst = es.map Prod.fst := by
  rw [ofEntries_eq_map, List.map_map]
  rfl

theorem lookup_ofEntries (s : Provenance) (es : List (String × Datum)) (name : String) :
    (ofEntries s es).lookup name = (es.lookup name).map (ofDatum s) := by
  rw [ofEntries_eq_map, lookup_map_snd]

/-- Data of one source have what they give. -/
theorem view_ofEntries (s : Provenance) (es : List (String × Datum)) (way : List String)
    (name : String) :
    view (ofEntries s es) way name = (Datum.at? es way name).map Datum.plain? := by
  induction way generalizing es with
  | nil =>
    rw [view, Datum.at?, lookup_ofEntries, Option.map_map]
    exact congrArg (Option.map · _) (funext (plain?_ofDatum s))
  | cons step way ih =>
    rw [view, Datum.at?, lookup_ofEntries]
    cases es.lookup step with
    | none => rfl
    | some d =>
      cases d with
      | table inner =>
        simp only [Option.map_some, ofDatum]
        exact ih inner
      | _ => simp only [Option.map_some, ofDatum, Option.map_none]

/-! ### Merges -/

theorem mem_names_put {es : List (String × Tree)} {name k : String} {t : Tree} :
    k ∈ (put es name t).map Prod.fst ↔ k = name ∨ k ∈ es.map Prod.fst := by
  induction es with
  | nil => simp [put]
  | cons e es ih =>
    obtain ⟨other, u⟩ := e
    rw [put]
    split
    · subst_vars
      simp
    · simp only [List.map_cons, List.mem_cons, ih]
      exact or_left_comm

theorem nodup_put {es : List (String × Tree)} (h : (es.map Prod.fst).Nodup) (name : String)
    (t : Tree) : ((put es name t).map Prod.fst).Nodup := by
  induction es with
  | nil => exact List.pairwise_singleton _ name
  | cons e es ih =>
    obtain ⟨other, u⟩ := e
    rw [List.map_cons, List.nodup_cons] at h
    rw [put]
    split
    · rename_i hname
      subst hname
      exact List.nodup_cons.mpr h
    · rename_i hname
      refine List.nodup_cons.mpr ⟨fun hmem => ?_, ih h.2⟩
      exact (mem_names_put.mp hmem).elim hname h.1

theorem nodup_mergeEntries {old new : List (String × Tree)} (h : (old.map Prod.fst).Nodup) :
    ((mergeEntries old new).map Prod.fst).Nodup := by
  induction new generalizing old with
  | nil => rwa [mergeEntries]
  | cons e new ih =>
    rw [mergeEntries]
    exact ih (nodup_put h _ _)

theorem plain?_merge (u t : Tree) : (merge u t).plain? = t.plain? := by
  cases t with
  | plain s d => rw [merge]
  | table s new =>
    cases u with
    | plain s' d => rw [merge]
    | table s' old =>
      rw [merge]
      rfl

/-- A merge has what the newer side has, or else what the older side has. -/
theorem view_mergeEntries {old new : List (String × Tree)} {way : List String}
    (hold : Tabular old way) (hnew : Tabular new way) (name : String) :
    view (mergeEntries old new) way name = (view new way name).or (view old way name) := by
  induction way generalizing old new with
  | nil =>
    rw [view, view, view, lookup_mergeEntries _ _ _ hnew]
    cases new.lookup name with
    | none => rfl
    | some t =>
      cases old.lookup name with
      | none => rfl
      | some u => exact congrArg some (plain?_merge u t)
  | cons step way ih =>
    rw [view, view, view, lookup_mergeEntries _ _ _ hnew.1]
    cases ht : new.lookup step with
    | none => rfl
    | some t =>
      obtain ⟨s, newer, rfl, hnewer⟩ := hnew.2 t ht
      cases hu : old.lookup step with
      | none => exact (Option.or_none).symm
      | some u =>
        obtain ⟨s', older, rfl, holder⟩ := hold.2 u hu
        simp only [merge]
        exact ih holder hnewer

theorem tabular_mergeEntries {old new : List (String × Tree)} {way : List String}
    (hold : Tabular old way) (hnew : Tabular new way) : Tabular (mergeEntries old new) way := by
  induction way generalizing old new with
  | nil => exact nodup_mergeEntries hold
  | cons step way ih =>
    refine ⟨nodup_mergeEntries hold.1, fun merged hmerged => ?_⟩
    rw [lookup_mergeEntries _ _ _ hnew.1] at hmerged
    cases ht : new.lookup step with
    | none =>
      rw [ht] at hmerged
      exact hold.2 merged hmerged
    | some t =>
      obtain ⟨s, newer, rfl, hnewer⟩ := hnew.2 t ht
      cases hu : old.lookup step with
      | none =>
        rw [ht, hu] at hmerged
        cases hmerged
        exact ⟨s, newer, rfl, hnewer⟩
      | some u =>
        obtain ⟨s', older, rfl, holder⟩ := hold.2 u hu
        rw [ht, hu] at hmerged
        cases hmerged
        exact ⟨s, _, by rw [merge], ih holder hnewer⟩

/-! ### Layers -/

/-- Entries have tables all along a way, and at its end what the last of some sources gives that
gives something. -/
structure Shows (way : List String) (es : List (String × Tree))
    (sources : List (List (String × Datum))) : Prop where
  tabular : Tabular es way
  view_eq : ∀ name, view es way name =
    (sources.reverse.findSome? (Datum.at? · way name)).map Datum.plain?

namespace Shows

variable {way : List String}

theorem nil (way : List String) : Shows way [] [] := ⟨tabular_nil way, view_nil way⟩

theorem single {s : Provenance} {es : List (String × Datum)} (h : Tabular (ofEntries s es) way) :
    Shows way (ofEntries s es) [es] := by
  refine ⟨h, fun name => ?_⟩
  rw [view_ofEntries, List.reverse_singleton, List.findSome?_singleton]

theorem merge {old new : List (String × Tree)} {below above : List (List (String × Datum))}
    (hold : Shows way old below) (hnew : Shows way new above) :
    Shows way (mergeEntries old new) (below ++ above) := by
  refine ⟨tabular_mergeEntries hold.tabular hnew.tabular, fun name => ?_⟩
  rw [view_mergeEntries hold.tabular hnew.tabular, hold.view_eq, hnew.view_eq,
    List.reverse_append, List.findSome?_append, Option.map_or]

/-- Sources one over the other, on what lies below them. -/
theorem foldl {s : Provenance} {sources : List (List (String × Datum))}
    (h : ∀ es ∈ sources, Tabular (ofEntries s es) way) {bottom : List (String × Tree)}
    {below : List (List (String × Datum))} (hbottom : Shows way bottom below) :
    Shows way ((sources.map (ofEntries s)).foldl mergeEntries bottom) (below ++ sources) := by
  induction sources generalizing bottom below with
  | nil =>
    rw [List.append_nil]
    exact hbottom
  | cons es sources ih =>
    have hfirst := hbottom.merge (single (h es List.mem_cons_self))
    have hall := ih (fun es' hes' => h es' (List.mem_cons_of_mem es hes')) hfirst
    rwa [List.append_assoc] at hall

end Shows

end Tree

end CommandBot
