import CommandBot.Proofs.ReadingUnit
import CommandBot.Proofs.RenderedMatch
import Mathlib.Data.List.NodupEquivFin

/-
  Arms that are never reached. The content that is an arm's key takes the arm, unless an arm before it
  has the same key (`isReached_iff`). The keys of the others are found in one pass: what it has met
  and what it has met again are, at every point, the keys that stand before this point at all and
  more than once (`Remembers`). `duplicateKeys_exact`: the pass lists each key with more than one arm
  at its second place; these are the keys of the arms that no content takes, the method that
  dispatches has leave for such arms when there are some, and building warns of each key once.
-/

namespace CommandBot

namespace DispatchTable

/-! ## Keys met again -/

/-- Whether the key at a place stands exactly once before it. -/
def isSecond (ks : List String) (i : Nat) : Bool :=
  ks[i]?.any fun k => (ks.take i).count k = 1

/-- The second places of keys, in ascending order. -/
def secondPlaces (ks : List String) : List Nat := (List.range ks.length).filter (isSecond ks)

/-- What a pass remembers behind some keys: which there are, and which are more than once there. -/
structure Remembers (before seen reported : List String) : Prop where
  seen : ∀ k, k ∈ seen ↔ 1 ≤ before.count k
  reported : ∀ k, k ∈ reported ↔ 2 ≤ before.count k

theorem remembers_nil : Remembers [] [] [] :=
  ⟨fun k => by simp, fun k => by simp⟩

section
variable {before seen reported : List String}

theorem count_concat (k l : String) :
    (before ++ [k]).count l = before.count l + if k = l then 1 else 0 := by
  simp [List.count_append, List.count_singleton]

/-- A key that was not there is remembered as one that is. -/
theorem Remembers.first (h : Remembers before seen reported) {k : String} (hk : before.count k = 0) :
    Remembers (before ++ [k]) (k :: seen) reported := by
  constructor <;> intro l <;> rw [count_concat]
  · rw [List.mem_cons, h.seen]
    by_cases hl : k = l
    · simp [hl]
    · simp [hl, Ne.symm hl]
  · rw [h.reported]
    split
    · subst l; omega
    · omega

/-- A key that was there once is remembered as one that is there again. -/
theorem Remembers.second (h : Remembers before seen reported) {k : String} (hk : before.count k = 1) :
    Remembers (before ++ [k]) seen (k :: reported) := by
  constructor <;> intro l <;> rw [count_concat]
  · rw [h.seen]
    split
    · subst l; omega
    · omega
  · rw [List.mem_cons, h.reported]
    by_cases hl : k = l
    · subst l; simp [hk]
    · simp [hl, Ne.symm hl]

/-- A key that was there more than once changes nothing. -/
theorem Remembers.further (h : Remembers before seen reported) {k : String}
    (hk : 2 ≤ before.count k) : Remembers (before ++ [k]) seen reported := by
  constructor <;> intro l <;> rw [count_concat]
  · rw [h.seen]
    split
    · subst l; omega
    · omega
  · rw [h.reported]
    split
    · subst l; omega
    · omega

/-- One more key: it is listed if this is its second time, and remembered either way. -/
theorem exists_metAgain_cons (h : Remembers before seen reported) (k : String) (rest : List String) :
    ∃ seen' reported', Remembers (before ++ [k]) seen' reported' ∧
      metAgain seen reported (k :: rest) =
        (if before.count k = 1 then [k] else []) ++ metAgain seen' reported' rest := by
  have hseen := h.seen k
  have hreported := h.reported k
  by_cases hk : k ∈ seen
  · have hone := hseen.mp hk
    by_cases hr : k ∈ reported
    · have htwo := hreported.mp hr
      refine ⟨seen, reported, h.further htwo, ?_⟩
      rw [metAgain, if_neg (by simp [hk]), if_neg (by simp [hr]), if_neg (by omega), List.nil_append]
    · have hnot := mt hreported.mpr hr
      refine ⟨seen, k :: reported, h.second (by omega), ?_⟩
      rw [metAgain, if_neg (by simp [hk]), if_pos (by simp [hr]), if_pos (by omega)]
      rfl
  · have hnot := mt hseen.mpr hk
    refine ⟨k :: seen, reported, h.first (by omega), ?_⟩
    rw [metAgain, if_pos (by simp [hk]), if_neg (by omega), List.nil_append]

/-- A pass lists the keys that it has met less than twice before and will have met more often. -/
theorem mem_metAgain_iff (h : Remembers before seen reported) (rest : List String) (k : String) :
    k ∈ metAgain seen reported rest ↔ before.count k < 2 ∧ 2 ≤ (before ++ rest).count k := by
  induction rest generalizing before seen reported with
  | nil => simp [metAgain]
  | cons l rest ih =>
    obtain ⟨seen', reported', hnext, heq⟩ := exists_metAgain_cons h l rest
    have hrest := ih hnext
    rw [List.append_assoc, List.singleton_append, count_concat] at hrest
    rw [heq, List.mem_append, hrest]
    by_cases hl : l = k
    · have hle : before.count l + 1 ≤ (before ++ l :: rest).count l := by
        rw [List.count_append, List.count_cons_self]
        omega
      subst hl
      rw [if_pos rfl]
      split
      · simp only [List.mem_singleton, true_or, true_iff]
        omega
      · simp only [List.not_mem_nil, false_or]
        omega
    · have hne : k ∉ (if before.count l = 1 then [l] else []) := by
        split <;> simp [Ne.symm hl]
      simp [hne, hl]

theorem nodup_metAgain (h : Remembers before seen reported) (rest : List String) :
    (metAgain seen reported rest).Nodup := by
  induction rest generalizing before seen reported with
  | nil => exact List.nodup_nil
  | cons k rest ih =>
    obtain ⟨seen', reported', hnext, heq⟩ := exists_metAgain_cons h k rest
    rw [heq]
    split
    · rename_i hone
      refine List.nodup_cons.mpr ⟨fun hk => ?_, ih hnext⟩
      have hlt := ((mem_metAgain_iff hnext rest k).mp hk).1
      rw [count_concat, if_pos rfl] at hlt
      omega
    · exact ih hnext

/-- A pass lists the keys at those of the places to come that are the second of their key. -/
theorem map_metAgain (h : Remembers before seen reported) (rest : List String) :
    (metAgain seen reported rest).map some =
      ((List.range' before.length rest.length).filter (isSecond (before ++ rest))).map
        ((before ++ rest)[·]?) := by
  induction rest generalizing before seen reported with
  | nil => rfl
  | cons k rest ih =>
    obtain ⟨seen', reported', hnext, heq⟩ := exists_metAgain_cons h k rest
    have hrest := ih hnext
    rw [List.append_assoc, List.singleton_append, List.length_append, List.length_singleton] at hrest
    have hkey : (before ++ k :: rest)[before.length]? = some k := by simp
    have hsecond : isSecond (before ++ k :: rest) before.length = decide (before.count k = 1) := by
      rw [isSecond, hkey, Option.any_some, List.take_left]
    rw [heq, List.map_append, hrest, List.length_cons, List.range'_succ, List.filter_cons, hsecond]
    by_cases hone : before.count k = 1
    · simp [hone]
    · simp [hone]

end

/-- The keys of more than one arm, by where they stand a second time. -/
theorem map_duplicateKeys (t : DispatchTable) :
    t.duplicateKeys.map some = (secondPlaces t.keys).map (t.keys[·]?) := by
  rw [duplicateKeys, map_metAgain remembers_nil, secondPlaces, List.range_eq_range']
  rfl

theorem mem_duplicateKeys_iff (t : DispatchTable) (k : String) :
    k ∈ t.duplicateKeys ↔ 2 ≤ t.keys.count k := by
  rw [duplicateKeys, mem_metAgain_iff remembers_nil]
  simp

/-! ## Arms that are reached -/

/-- Some content takes the arm at a place. -/
def IsReached (t : DispatchTable) (i : Nat) : Prop := ∃ content, t.position? content = some i

/-- A content takes an arm if it is the arm's key and stands at no place before. -/
theorem position?_eq_some_iff {t : DispatchTable} {i : Nat} {a : Arm} (ha : t.arms[i]? = some a)
    (content : String) : t.position? content = some i ↔ a.key = content ∧ content ∉ t.keys.take i := by
  obtain ⟨hi, rfl⟩ := List.getElem?_eq_some_iff.mp ha
  unfold position? keys
  rw [List.findIdx?_eq_some_iff_getElem, ← List.map_take, List.mem_map]
  constructor
  · rintro ⟨_, hkey, hbefore⟩
    refine ⟨eq_of_beq hkey, ?_⟩
    rintro ⟨b, hb, hsame⟩
    obtain ⟨j, hj, hget⟩ := List.mem_take_iff_getElem.mp hb
    refine hbefore j (by omega) ?_
    rw [hget, hsame]
    exact beq_self_eq_true content
  · rintro ⟨hkey, hbefore⟩
    refine ⟨hi, by rw [hkey]; exact beq_self_eq_true content, fun j hj hsame => hbefore ?_⟩
    exact ⟨t.arms[j], List.mem_take_iff_getElem.mpr ⟨j, by omega, rfl⟩, eq_of_beq hsame⟩

/-- An arm is reached if its key stands at no place before. -/
theorem isReached_iff {t : DispatchTable} {i : Nat} {a : Arm} (ha : t.arms[i]? = some a) :
    t.IsReached i ↔ a.key ∉ t.keys.take i := by
  unfold IsReached
  simp only [position?_eq_some_iff ha]
  constructor
  · rintro ⟨content, rfl, h⟩
    exact h
  · exact fun h => ⟨_, rfl, h⟩

/-- A key has more than one arm when one of its arms is not reached. -/
theorem two_le_count_iff (t : DispatchTable) (k : String) :
    2 ≤ t.keys.count k ↔ ∃ i a, t.arms[i]? = some a ∧ a.key = k ∧ ¬ t.IsReached i := by
  rw [← List.duplicate_iff_two_le_count, List.duplicate_iff_exists_distinct_get]
  constructor
  · rintro ⟨n, m, hnm, hn, hm⟩
    have hlength : t.keys.length = t.arms.length := List.length_map _
    have hkey : t.arms[m.val].key = k := by
      rw [hm]
      exact (List.getElem_map Arm.key).symm
    refine ⟨m, t.arms[m.val], List.getElem?_eq_getElem (by omega), hkey, ?_⟩
    rw [isReached_iff (List.getElem?_eq_getElem (by omega)), not_not, hkey]
    exact List.mem_take_iff_getElem.mpr ⟨n, by omega, hn.symm⟩
  · rintro ⟨i, a, ha, rfl, hnot⟩
    rw [isReached_iff ha, not_not] at hnot
    obtain ⟨j, hj, hkey⟩ := List.mem_take_iff_getElem.mp hnot
    obtain ⟨hi, rfl⟩ := List.getElem?_eq_some_iff.mp ha
    have hlength : t.keys.length = t.arms.length := List.length_map _
    refine ⟨⟨j, by omega⟩, ⟨i, by omega⟩, by rw [Fin.mk_lt_mk]; omega, hkey.symm, ?_⟩
    simp [keys]

/-! ## Leave for arms that are not reached -/

end DispatchTable

/-- The attribute gives leave for what one lint is against. -/
def Attribute.Allows (a : Attribute) (lint : String) : Prop :=
  a.isNamed "allow" = true ∧
    ∃ d w s, a.arguments = .listed d [.word w] s ∧ w.text = lint

namespace DispatchTable

theorem exists_allows_iff (t : DispatchTable) :
    (∃ a ∈ t.attributes, a.Allows "unreachable_patterns") ↔ t.duplicateKeys ≠ [] := by
  unfold attributes
  rw [← List.isEmpty_eq_false_iff]
  constructor
  · rintro ⟨a, ha, hallow, hlint⟩
    by_contra hempty
    rw [if_pos (Bool.of_not_eq_false hempty), List.mem_singleton] at ha
    subst ha
    exact absurd hallow (by decide)
  · intro hempty
    refine ⟨.make "allow" (Template.words ["unreachable_patterns"]), ?_, by decide, ?_⟩
    · rw [if_neg (by rw [hempty]; exact Bool.false_ne_true)]
      exact List.mem_cons_of_mem _ (List.mem_singleton_self _)
    · exact ⟨_, _, _, rfl, rfl⟩

/-- The method that dispatches is the attributes and, behind them, the match. -/
theorem exists_takeOuter_trees (t : DispatchTable) :
    ∃ rest, Attribute.takeOuter t.trees = some (t.attributes, rest) ∧
      MatchCode.ofMethod? rest = some t.matchCode := by
  have hskip : ∀ rest, MatchCode.ofMethod? (Attribute.treesOf t.attributes ++ rest) =
      MatchCode.ofMethod? rest := by
    intro rest
    rw [treesOf_attributes]
    unfold Template.doc allowance
    split <;> rfl
  have hcode := MatchCode.ofMethod?_trees t
  unfold trees at hcode ⊢
  rw [← treesOf_attributes] at hcode ⊢
  simp only [List.append_assoc] at hcode ⊢
  rw [hskip] at hcode
  exact ⟨_, Attribute.takeOuter_treesOf (readsBack_attributes t) rfl, hcode⟩

theorem filter_warn_build (hs : List Handler) :
    (build hs).events.filter (fun e => e.level = .warn) =
      (build hs).value.duplicateKeys.map duplicateEvent := by
  have hevents : (build hs).events =
      (build hs).value.duplicateKeys.map duplicateEvent ++ [(build hs).value.builtEvent] := by
    simp [build, Logged.events, Output.event?, Function.comp_def, List.filterMap_map]
  rw [hevents, List.filter_append, List.filter_eq_self.mpr, List.filter_eq_nil_iff.mpr,
    List.append_nil]
  · intro e he
    rw [List.mem_singleton.mp he]
    exact Bool.false_ne_true
  · intro e he
    obtain ⟨k, -, rfl⟩ := List.mem_map.mp he
    rfl

/-- The keys that the pass lists are those of the arms that no content takes, each once, in the
order of their second places. Where there are such arms, and only there, the method that dispatches
has leave for them, and building the table warns of each key, in this order. -/
theorem duplicateKeys_exact (hs : List Handler) :
    let t := (build hs).value
    t.keys = hs.map Handler.key ∧
    (∀ content, t.route content = (t.position? content).bind (t.arms[·]?)) ∧
    t.duplicateKeys.Nodup ∧
    t.duplicateKeys.map some = (secondPlaces t.keys).map (t.keys[·]?) ∧
    (∀ k, k ∈ t.duplicateKeys ↔ 2 ≤ t.keys.count k) ∧
    (∀ k, k ∈ t.duplicateKeys ↔ ∃ i a, t.arms[i]? = some a ∧ a.key = k ∧ ¬ t.IsReached i) ∧
    (∃ attributes rest, Attribute.takeOuter t.trees = some (attributes, rest) ∧
      MatchCode.ofMethod? rest = some t.matchCode ∧
      ((∃ a ∈ attributes, a.Allows "unreachable_patterns") ↔
        ∃ i a, t.arms[i]? = some a ∧ ¬ t.IsReached i)) ∧
    (build hs).events.filter (fun e => e.level = .warn) =
      t.duplicateKeys.map fun k =>
        { level := .warn
          target := "magicord_processor::dispatch"
          message := "Duplicate command key; only the first handler is reachable"
          fields := [("key", .quoted k)] } := by
  intro t
  have hunreached : ∀ k, k ∈ t.duplicateKeys ↔
      ∃ i a, t.arms[i]? = some a ∧ a.key = k ∧ ¬ t.IsReached i :=
    fun k => (mem_duplicateKeys_iff t k).trans (two_le_count_iff t k)
  obtain ⟨rest, htake, hcode⟩ := exists_takeOuter_trees t
  refine ⟨keys_ofHandlers hs, route_eq_bind t, nodup_metAgain remembers_nil _, map_duplicateKeys t,
    mem_duplicateKeys_iff t, hunreached, ⟨_, rest, htake, hcode, ?_⟩, filter_warn_build hs⟩
  rw [exists_allows_iff]
  constructor
  · intro hne
    obtain ⟨k, hk⟩ := List.exists_mem_of_ne_nil _ hne
    obtain ⟨i, a, ha, -, hnot⟩ := (hunreached k).mp hk
    exact ⟨i, a, ha, hnot⟩
  · rintro ⟨i, a, ha, hnot⟩
    exact List.ne_nil_of_mem ((hunreached a.key).mpr ⟨i, a, ha, rfl, hnot⟩)

end DispatchTable

end CommandBot
