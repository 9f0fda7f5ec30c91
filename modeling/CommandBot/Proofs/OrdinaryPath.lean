import CommandBot.Text.Path
import Mathlib.Data.List.Induction

/-
  Paths that go from name to name. `isWay_join`: ordinary names put together are a path with just
  these parts; `exists_route_push`: below a directory, the way of such a path is the directory's own
  way with the names behind.
-/

namespace CommandBot.Path

/-- A name of a file or a directory: neither one of the special names nor made of several. -/
def IsOrdinary (name : String) : Prop :=
  name ≠ "" ∧ name ≠ "." ∧ name ≠ ".." ∧ '/' ∉ name.toList

instance : DecidablePred IsOrdinary := fun name => by
  unfold IsOrdinary
  infer_instance

/-- A path that has these parts and stays below where it begins. -/
structure IsWay (p : String) (ns : List String) : Prop where
  parts_eq : parts p = ns
  ne_empty : p ≠ ""
  not_rooted : isRooted p = false
  ends_in_name : p.toList.getLast? ≠ some '/'

theorem parts_append (p q : String) : parts (p ++ "/" ++ q) = parts p ++ parts q := by
  have htext : (p ++ "/" ++ q).toList = p.toList ++ '/' :: q.toList := by
    rw [String.toList_append, String.toList_append, List.append_assoc]
    rfl
  rw [parts, htext, List.splitOnP_append_cons _ _ (by decide), List.map_append]
  rfl

theorem parts_of_not_mem {n : String} (h : '/' ∉ n.toList) : parts n = [n] := by
  rw [parts, List.splitOnP_eq_singleton, List.map_singleton, String.ofList_toList]
  intro c hc
  rw [beq_eq_false_iff_ne]
  rintro rfl
  exact h hc

theorem isRooted_of_not_mem {n : String} (h : '/' ∉ n.toList) : isRooted n = false := by
  unfold isRooted
  rw [decide_eq_false_iff_not]
  intro hhead
  exact h (List.mem_of_mem_head? hhead)

theorem isRooted_append {p : String} (h : p ≠ "") (q : String) :
    isRooted (p ++ q) = isRooted p := by
  unfold isRooted
  rw [String.toList_append]
  cases hp : p.toList with
  | nil => exact absurd (String.toList_eq_nil_iff.mp hp) h
  | cons c cs => rfl

theorem isWay_ordinary {n : String} (h : IsOrdinary n) : IsWay n [n] where
  parts_eq := parts_of_not_mem h.2.2.2
  ne_empty := h.1
  not_rooted := isRooted_of_not_mem h.2.2.2
  ends_in_name := fun hlast => h.2.2.2 (List.mem_of_getLast? hlast)

theorem isWay_append {p : String} {ns : List String} (h : IsWay p ns) {n : String}
    (hn : IsOrdinary n) : IsWay (p ++ "/" ++ n) (ns ++ [n]) where
  parts_eq := by rw [parts_append, h.parts_eq, parts_of_not_mem hn.2.2.2]
  ne_empty := by
    intro hempty
    have := congrArg String.toList hempty
    simp at this
  not_rooted := by
    rw [String.append_assoc, isRooted_append h.ne_empty, h.not_rooted]
  ends_in_name := by
    have hne : n.toList ≠ [] := fun hnil => hn.1 (String.toList_eq_nil_iff.mp hnil)
    have hlast : ((p ++ "/").toList ++ n.toList).getLast? = n.toList.getLast? := by
      rw [List.getLast?_append, List.getLast?_eq_some_getLast hne, Option.some_or]
    rw [String.toList_append, hlast]
    exact (isWay_ordinary hn).ends_in_name

theorem push_of_isWay {p : String} {ns : List String} (h : IsWay p ns) {n : String}
    (hn : IsOrdinary n) : push p n = p ++ "/" ++ n := by
  have hempty : p.isEmpty = false := by
    rw [Bool.eq_false_iff]
    exact fun h' => h.ne_empty (String.isEmpty_iff.mp h')
  rw [push, isRooted_of_not_mem hn.2.2.2, hempty, if_neg (by decide), if_neg h.ends_in_name]

/-- Ordinary names put together are a path with these names as its parts. -/
theorem isWay_join {ns : List String} (hne : ns ≠ []) (h : ∀ n ∈ ns, IsOrdinary n) :
    IsWay (join ns) ns := by
  induction ns using List.reverseRecOn with
  | nil => exact absurd rfl hne
  | append_singleton ns n ih =>
    have hn : IsOrdinary n := h n (by simp)
    have hjoin : join (ns ++ [n]) = push (join ns) n := by
      rw [join, List.foldl_append]
      rfl
    rw [hjoin]
    by_cases hns : ns = []
    · subst hns
      show IsWay (push "" n) ([] ++ [n])
      rw [push_empty]
      exact isWay_ordinary hn
    · have hway := ih hns fun m hm => h m (List.mem_append_left _ hm)
      rw [push_of_isWay hway hn]
      exact isWay_append hway hn

/-! ## Ways -/

theorem stepTo_of_isOrdinary {n : String} (h : IsOrdinary n) : stepTo n = .name n := by
  simp [stepTo, h.1, h.2.1, h.2.2.1]

theorem map_stepTo {ns : List String} (h : ∀ n ∈ ns, IsOrdinary n) :
    ns.map stepTo = ns.map .name :=
  List.map_congr_left fun n hn => stepTo_of_isOrdinary (h n hn)

theorem route_of_ne_empty {p : String} (h : p ≠ "") :
    route p = if isRooted p then .root :: (parts p).tail.map stepTo else (parts p).map stepTo := by
  have hempty : p.isEmpty = false := by
    rw [Bool.eq_false_iff]
    exact fun h' => h (String.isEmpty_iff.mp h')
  rw [route, hempty, if_neg (by decide)]

theorem route_of_isWay {p : String} {ns : List String} (h : IsWay p ns)
    (hns : ∀ n ∈ ns, IsOrdinary n) : route p = ns.map .name := by
  rw [route_of_ne_empty h.ne_empty, h.not_rooted, if_neg (by decide), h.parts_eq, map_stepTo hns]

theorem parts_ne_nil (p : String) : parts p ≠ [] := by
  intro h
  exact List.splitOnP_ne_nil _ _ (List.map_eq_nil_iff.mp h)

/-- A path with names behind a slash goes where the path does and then to the names. -/
theorem route_append {p q : String} {ns : List String} (hp : p ≠ "") (hq : IsWay q ns)
    (hns : ∀ n ∈ ns, IsOrdinary n) : route (p ++ "/" ++ q) = route p ++ ns.map .name := by
  have hne : p ++ "/" ++ q ≠ "" := by
    intro hempty
    have := congrArg String.toList hempty
    simp at this
  rw [route_of_ne_empty hne, route_of_ne_empty hp, String.append_assoc, isRooted_append hp,
    ← String.append_assoc, parts_append, hq.parts_eq, List.tail_append_of_ne_nil (parts_ne_nil p),
    List.map_append, List.map_append, map_stepTo hns]
  split <;> rfl

/-- Below a directory the way of a path from name to name is the directory's own, a step that stays
where it is apart, and then the names. -/
theorem exists_route_push (d : String) :
    ∃ w, (route d = w ∨ route d = w ++ [.here]) ∧
      ∀ {p : String} {ns : List String}, IsWay p ns → (∀ n ∈ ns, IsOrdinary n) →
        push d p ≠ "" ∧ route (push d p) = w ++ ns.map .name := by
  by_cases hempty : d = ""
  · subst hempty
    refine ⟨[], .inl rfl, fun h hns => ?_⟩
    rw [push_empty, route_of_isWay h hns]
    exact ⟨h.ne_empty, rfl⟩
  have hisEmpty : d.isEmpty = false := by
    rw [Bool.eq_false_iff]
    exact fun h' => hempty (String.isEmpty_iff.mp h')
  by_cases hslash : d.toList.getLast? = some '/'
  · obtain ⟨cs, hcs⟩ := List.getLast?_eq_some_iff.mp hslash
    have hd : d = String.ofList cs ++ "/" := by
      rw [← String.toList_inj, String.toList_append, String.toList_ofList, hcs]
      rfl
    have hpush : ∀ {p ns}, IsWay p ns → push d p = String.ofList cs ++ "/" ++ p := by
      intro p ns h
      rw [push, h.not_rooted, hisEmpty, if_neg (by decide), if_pos hslash, ← hd]
    have hnonempty : ∀ p, String.ofList cs ++ "/" ++ p ≠ "" := by
      intro p h
      have := congrArg String.toList h
      simp at this
    by_cases hroot : String.ofList cs = ""
    · rw [hroot] at hd hpush hnonempty
      refine ⟨[.root], .inr (by rw [hd]; rfl), fun {p ns} h hns => ?_⟩
      rw [hpush h]
      refine ⟨hnonempty p, ?_⟩
      have hrooted : isRooted ("" ++ "/" ++ p) = true := by
        unfold isRooted
        rw [String.toList_append]
        rfl
      rw [route_of_ne_empty (hnonempty p), hrooted, if_pos rfl, parts_append, h.parts_eq]
      show .root :: (ns.map stepTo) = _
      rw [map_stepTo hns]
      rfl
    · refine ⟨route (String.ofList cs), .inr ?_, fun {p ns} h hns => ?_⟩
      · have hparts : parts d = parts (String.ofList cs) ++ [""] := by
          rw [hd, ← String.append_empty (s := String.ofList cs ++ "/"), parts_append]
          rfl
        rw [route_of_ne_empty hempty, route_of_ne_empty hroot, hparts, hd,
          isRooted_append hroot, List.tail_append_of_ne_nil (parts_ne_nil _), List.map_append,
          List.map_append]
        split <;> rfl
      · rw [hpush h]
        exact ⟨hnonempty p, route_append hroot h hns⟩
  · refine ⟨route d, .inl rfl, fun {p ns} h hns => ?_⟩
    have hpush : push d p = d ++ "/" ++ p := by
      rw [push, h.not_rooted, hisEmpty, if_neg (by decide), if_neg hslash]
    rw [hpush]
    refine ⟨?_, route_append hempty h hns⟩
    intro h
    have := congrArg String.toList h
    simp at this

end CommandBot.Path
