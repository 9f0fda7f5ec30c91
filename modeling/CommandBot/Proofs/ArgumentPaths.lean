import CommandBot.Bot.TokenSource

/-
  The paths of arguments. Reading one looks at words, at the marks of `::` and at what kind of token
  stands where a word should; whatever else of a token is changed (`KeepsPaths`), the same path is
  read, with the same tokens behind it or the same error (`readPath_map`).
-/

namespace CommandBot.TokenSource

/-- What is read, with its value mapped and the place of its error moved. -/
def movedResult {α β : Type} (σ : Span → Span) (f : α → β) :
    Except ArgumentError α → Except ArgumentError β
  | .ok a => .ok (f a)
  | .error e => .error (e.1, σ e.2)

/-- A change of tokens that moves places and keeps all that the path of an argument is read from. -/
structure KeepsPaths (φ : TokenTree → TokenTree) (σ : Span → Span) : Prop where
  word : ∀ w : Word, φ (.word w) = .word ⟨w.text, σ w.span⟩
  mark : ∀ c spacing s, φ (.mark c spacing s) = .mark c spacing (σ s)
  exists_word : ∀ {t w}, φ t = .word w → ∃ v, t = .word v
  exists_mark : ∀ {t c spacing s}, φ t = .mark c spacing s → ∃ s', t = .mark c spacing s'
  headSpan : ∀ t, (φ t).headSpan = σ t.headSpan
  literalAhead : ∀ ts, Grammar.literalAhead (ts.map φ) = Grammar.literalAhead ts

/-- The path with its places moved. -/
def ArgumentPath.moved (σ : Span → Span) (p : ArgumentPath) : ArgumentPath :=
  ⟨⟨p.first.text, σ p.first.span⟩, ⟨p.last.text, σ p.last.span⟩, p.isSingle⟩

variable {φ : TokenTree → TokenTree} {σ : Span → Span}

theorem placeOf_map (h : KeepsPaths φ σ) (close : Span) (ts : List TokenTree) :
    placeOf (σ close) (ts.map φ) = σ (placeOf close ts) := by
  rcases ts with _ | ⟨t, rest⟩
  · rfl
  · exact h.headSpan t

theorem readPathTail_map (h : KeepsPaths φ σ) (close : Span) (last : Word) (ts : List TokenTree) :
    readPathTail (σ close) ⟨last.text, σ last.span⟩ (ts.map φ) =
      movedResult σ (fun r => (⟨r.1.text, σ r.1.span⟩, r.2.map φ)) (readPathTail close last ts) := by
  fun_induction readPathTail close last ts with
  | case1 last s s' s'' w rest ih =>
    simp only [List.map_cons, h.mark, h.word]
    rw [readPathTail]
    exact ih
  | case2 last s s' s'' rest hword =>
    simp only [List.map_cons, h.mark]
    rw [readPathTail]
    · rw [List.isEmpty_map, placeOf_map h]
      rfl
    · intro w rest' heq
      obtain ⟨t, rest, rfl, ht, -⟩ := List.map_eq_cons_iff.mp heq
      obtain ⟨v, rfl⟩ := h.exists_word ht
      exact hword _ _ rfl
  | case3 last ts hword hmark =>
    rw [readPathTail]
    · rfl
    · intro s spacing s' w rest heq
      obtain ⟨t, rest₁, rfl, ht, heq⟩ := List.map_eq_cons_iff.mp heq
      obtain ⟨t', rest₂, rfl, ht', heq⟩ := List.map_eq_cons_iff.mp heq
      obtain ⟨t'', rest₃, rfl, ht'', -⟩ := List.map_eq_cons_iff.mp heq
      obtain ⟨_, rfl⟩ := h.exists_mark ht
      obtain ⟨_, rfl⟩ := h.exists_mark ht'
      obtain ⟨_, rfl⟩ := h.exists_word ht''
      exact hword _ _ _ _ _ rfl
    · intro s spacing s' rest heq
      obtain ⟨t, rest₁, rfl, ht, heq⟩ := List.map_eq_cons_iff.mp heq
      obtain ⟨t', rest₂, rfl, ht', -⟩ := List.map_eq_cons_iff.mp heq
      obtain ⟨_, rfl⟩ := h.exists_mark ht
      obtain ⟨_, rfl⟩ := h.exists_mark ht'
      exact hmark _ _ _ _ rfl

theorem readPathFrom_map (h : KeepsPaths φ σ) (close : Span) (isRooted : Bool)
    (ts : List TokenTree) :
    readPathFrom (σ close) isRooted (ts.map φ) =
      movedResult σ (fun r => (r.1.moved σ, r.2.map φ)) (readPathFrom close isRooted ts) := by
  fun_cases readPathFrom close isRooted ts with
  | case1 w rest =>
    rw [List.map_cons, h.word, readPathFrom, readPathTail_map h close w rest]
    rcases readPathTail close w rest with e | ⟨last, rest'⟩
    · rfl
    · simp only [movedResult, bind, Except.bind, List.length_map]
      rfl
  | case2 => rfl
  | case3 ts hword hnil =>
    rw [readPathFrom, h.literalAhead, placeOf_map h]
    · rfl
    · intro w rest heq
      obtain ⟨t, rest, rfl, ht, -⟩ := List.map_eq_cons_iff.mp heq
      obtain ⟨_, rfl⟩ := h.exists_word ht
      exact hword _ _ rfl
    · intro heq
      exact hnil (List.map_eq_nil_iff.mp heq)

/-- A change that keeps paths commutes with reading one. -/
theorem readPath_map (h : KeepsPaths φ σ) (close : Span) (ts : List TokenTree) :
    readPath (σ close) (ts.map φ) =
      movedResult σ (fun r => (r.1.moved σ, r.2.map φ)) (readPath close ts) := by
  fun_cases readPath close ts with
  | case1 s spacing s' rest =>
    simp only [List.map_cons, h.mark]
    rw [readPath]
    exact readPathFrom_map h close true rest
  | case2 ts hmark =>
    rw [readPath]
    · exact readPathFrom_map h close false ts
    · intro s spacing s' rest heq
      obtain ⟨t, rest₁, rfl, ht, heq⟩ := List.map_eq_cons_iff.mp heq
      obtain ⟨t', rest₂, rfl, ht', -⟩ := List.map_eq_cons_iff.mp heq
      obtain ⟨_, rfl⟩ := h.exists_mark ht
      obtain ⟨_, rfl⟩ := h.exists_mark ht'
      exact hmark _ _ _ _ rfl

end CommandBot.TokenSource
