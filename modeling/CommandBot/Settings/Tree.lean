import CommandBot.Settings.Datum

/-
  Data from several sources in one tree, in which each piece knows where it comes from. Merging
  goes into tables: a name that both sides have is merged in turn, and whatever is no table gives
  way to the newer side. `get?_mergeEntries` says so for one name.
-/

namespace CommandBot

/-- Where settings come from. -/
inductive Provenance where
  | defaults
  | file (path : String)
  | environment
  | override
deriving DecidableEq, Repr

/-- Data with where it comes from. -/
inductive Tree where
  /-- anything but a table -/
  | plain (source : Provenance) (d : Datum)
  | table (source : Provenance) (entries : List (String × Tree))

namespace Tree

def source : Tree → Provenance
  | .plain s _ => s
  | .table s _ => s

mutual

/-- Data that comes from one place. -/
def ofDatum (s : Provenance) : Datum → Tree
  | .table es => .table s (ofEntries s es)
  | .truth b => .plain s (.truth b)
  | .unsigned n => .plain s (.unsigned n)
  | .signed i => .plain s (.signed i)
  | .float x => .plain s (.float x)
  | .character c => .plain s (.character c)
  | .text t => .plain s (.text t)
  | .list items => .plain s (.list items)

def ofEntries (s : Provenance) : List (String × Datum) → List (String × Tree)
  | [] => []
  | (name, d) :: rest => (name, ofDatum s d) :: ofEntries s rest

end

/-- The entries with a tree for a name, in place of an earlier one. -/
def put (es : List (String × Tree)) (name : String) (t : Tree) : List (String × Tree) :=
  match es with
  | [] => [(name, t)]
  | (other, u) :: rest => if other = name then (name, t) :: rest else (other, u) :: put rest name t

mutual

/-- An older tree with a newer one over it. -/
def merge (old : Tree) : Tree → Tree
  | .plain s d => .plain s d
  | .table s new =>
    match old with
    | .plain _ _ => .table s new
    | .table _ entries => .table s (mergeEntries entries new)

/-- Older entries with newer ones over them. -/
def mergeEntries (old : List (String × Tree)) : List (String × Tree) → List (String × Tree)
  | [] => old
  | (name, t) :: rest =>
    mergeEntries
      (put old name
        (match old.lookup name with
          | some u => merge u t
          | none => t))
      rest

end

/-- Entries in the order of their names. -/
def inOrder (es : List (String × Tree)) : List (String × Tree) :=
  es.mergeSort fun a b => a.1 ≤ b.1

theorem lookup_put_self (es : List (String × Tree)) (name : String) (t : Tree) :
    (put es name t).lookup name = some t := by
  induction es with
  | nil => simp [put]
  | cons e es ih =>
    obtain ⟨other, u⟩ := e
    by_cases h : other = name
    · simp [put, h]
    · have h' : (name == other) = false := by simp [Ne.symm h]
      simp [put, h, List.lookup_cons, h', ih]

theorem lookup_put_of_ne (es : List (String × Tree)) {name k : String} (t : Tree) (h : k ≠ name) :
    (put es name t).lookup k = es.lookup k := by
  induction es with
  | nil =>
    have h' : (k == name) = false := by simp [h]
    simp [put, List.lookup_cons, h']
  | cons e es ih =>
    obtain ⟨other, u⟩ := e
    by_cases ho : other = name
    · have h' : (k == name) = false := by simp [h]
      simp [put, ho, List.lookup_cons, h']
    · simp [put, ho, List.lookup_cons, ih]

/-- One name after a merge of two sides that have each name once. -/
theorem lookup_mergeEntries (old new : List (String × Tree)) (k : String)
    (h : (new.map Prod.fst).Nodup) :
    (mergeEntries old new).lookup k =
      match new.lookup k with
      | none => old.lookup k
      | some t =>
        match old.lookup k with
        | some u => some (merge u t)
        | none => some t := by
  induction new generalizing old with
  | nil => simp [mergeEntries]
  | cons e rest ih =>
    obtain ⟨name, t⟩ := e
    simp only [List.map_cons, List.nodup_cons] at h
    rw [mergeEntries, ih _ h.2]
    by_cases hk : k = name
    · subst hk
      have : rest.lookup k = none := by
        rw [List.lookup_eq_none_iff]
        intro p hp
        have := h.1
        simp only [List.mem_map, not_exists, not_and] at this
        simpa using Ne.symm (this p hp)
      simp only [this, lookup_put_self, List.lookup_cons, beq_self_eq_true]
      cases old.lookup k <;> rfl
    · have h' : (k == name) = false := by simp [hk]
      simp only [lookup_put_of_ne _ _ hk, List.lookup_cons, h']

end Tree

end CommandBot
