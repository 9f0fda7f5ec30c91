import CommandBot.Files.Basic

/-
  Where paths lead while files change. Directories are made and never unmade, so that a path which
  leads somewhere goes on leading there (`follow_of_keeps`). `grows_makeAll`: making directories puts
  them where nothing was and changes nothing else.
-/

namespace CommandBot

theorem Node.text_ne_directory (content : String) : Node.text content ≠ .directory := nofun

namespace Files

/-! ## Steps one after the other -/

theorem follow_cons_append (fs : Files) (here : Place) (s : Step) (t : List Step) :
    fs.follow here (s :: t) = (fs.follow here [s]).bind fun q => fs.follow q t := by
  cases hget : fs.get? here with
  | none => simp only [follow, hget]; rfl
  | some node =>
    cases node with
    | text content => simp only [follow, hget]; rfl
    | bytes content => simp only [follow, hget]; rfl
    | directory =>
      cases s with
      | root => simp only [follow, hget]; rfl
      | here => simp only [follow, hget]; rfl
      | up => simp only [follow, hget]; rfl
      | name n =>
        simp only [follow, hget]
        split <;> rfl

/-- Steps are followed from where the steps before them lead. -/
theorem follow_append (fs : Files) (here : Place) (s t : List Step) :
    fs.follow here (s ++ t) = (fs.follow here s).bind fun q => fs.follow q t := by
  induction s generalizing here with
  | nil => rfl
  | cons a s ih =>
    rw [List.cons_append, follow_cons_append, follow_cons_append fs here a s]
    cases fs.follow here [a] with
    | error e => rfl
    | ok q => exact ih q

theorem follow_append_eq_ok_iff (fs : Files) (here q : Place) (s t : List Step) :
    fs.follow here (s ++ t) = .ok q ↔
      ∃ o, fs.follow here s = .ok o ∧ fs.follow o t = .ok q := by
  rw [follow_append]
  cases fs.follow here s with
  | error e =>
    constructor
    · intro h
      cases h
    · rintro ⟨o, ho, -⟩
      cases ho
  | ok o =>
    constructor
    · intro h
      exact ⟨o, rfl, h⟩
    · rintro ⟨o', ho, h⟩
      cases ho
      exact h

theorem resolve_append_eq_ok_iff (fs : Files) (q : Place) (s t : List Step) :
    fs.resolve (s ++ t) = .ok q ↔ ∃ o, fs.resolve s = .ok o ∧ fs.follow o t = .ok q :=
  follow_append_eq_ok_iff fs fs.start q s t

/-- Where there is a step to follow, there is a directory. -/
theorem directory_of_follow {fs : Files} {here q : Place} {s : Step} {way : List Step}
    (h : fs.follow here (s :: way) = .ok q) : fs.get? here = some .directory := by
  cases hget : fs.get? here with
  | none => simp only [follow, hget] at h; cases h
  | some node =>
    cases node with
    | directory => rfl
    | text content => simp only [follow, hget] at h; cases h
    | bytes content => simp only [follow, hget] at h; cases h

/-- Steps to names lead to the place with these names behind. -/
theorem follow_names {fs : Files} {here q : Place} {ns : List String}
    (h : fs.follow here (ns.map .name) = .ok q) : q = here ++ ns := by
  induction ns generalizing here with
  | nil =>
    cases h
    exact (List.append_nil _).symm
  | cons n ns ih =>
    rw [List.map_cons] at h
    have hget := directory_of_follow h
    simp only [follow, hget] at h
    split at h
    · cases h
    · rw [ih h, List.append_assoc]
      rfl

/-! ## Changes that keep directories -/

/-- Every directory stays one, and the working directory stays where it is. -/
structure KeepsDirectories (fs fs' : Files) : Prop where
  start_eq : fs'.start = fs.start
  stays : ∀ p, fs.get? p = some .directory → fs'.get? p = some .directory

theorem KeepsDirectories.refl (fs : Files) : KeepsDirectories fs fs := ⟨rfl, fun _ h => h⟩

theorem KeepsDirectories.trans {fs fs' fs'' : Files} (h : KeepsDirectories fs fs')
    (h' : KeepsDirectories fs' fs'') : KeepsDirectories fs fs'' :=
  ⟨h'.start_eq.trans h.start_eq, fun p hp => h'.stays p (h.stays p hp)⟩

/-- Nothing changes but that there may be new directories where nothing was. -/
structure Grows (fs fs' : Files) : Prop where
  start_eq : fs'.start = fs.start
  places : ∀ p, fs'.get? p = fs.get? p ∨ (fs.get? p = none ∧ fs'.get? p = some .directory)

theorem Grows.refl (fs : Files) : Grows fs fs := ⟨rfl, fun _ => .inl rfl⟩

theorem Grows.trans {fs fs' fs'' : Files} (h : Grows fs fs') (h' : Grows fs' fs'') :
    Grows fs fs'' := by
  refine ⟨h'.start_eq.trans h.start_eq, fun p => ?_⟩
  rcases h'.places p with heq | ⟨hnone, hdir⟩
  · rcases h.places p with heq' | ⟨hnone, hdir⟩
    · exact .inl (heq.trans heq')
    · exact .inr ⟨hnone, heq.trans hdir⟩
  · rcases h.places p with heq' | ⟨-, hdir'⟩
    · exact .inr ⟨heq' ▸ hnone, hdir⟩
    · rw [hdir'] at hnone
      cases hnone

theorem Grows.keepsDirectories {fs fs' : Files} (h : Grows fs fs') : KeepsDirectories fs fs' := by
  refine ⟨h.start_eq, fun p hp => ?_⟩
  rcases h.places p with heq | ⟨hnone, -⟩
  · rw [heq, hp]
  · rw [hp] at hnone
    cases hnone

/-- No file is made, changed or removed. -/
theorem Grows.file_iff {fs fs' : Files} (h : Grows fs fs') (p : Place) {n : Node}
    (hn : n ≠ .directory) : fs'.get? p = some n ↔ fs.get? p = some n := by
  rcases h.places p with heq | ⟨hnone, hdir⟩
  · rw [heq]
  · rw [hnone, hdir]
    exact ⟨fun h => absurd (Option.some.inj h).symm hn, fun h => nomatch h⟩

theorem grows_put_directory {fs : Files} {p : Place} (h : fs.get? p = none) :
    Grows fs (fs.put p .directory) := by
  refine ⟨rfl, fun q => ?_⟩
  by_cases hq : q = p
  · subst hq
    exact .inr ⟨h, get?_put_self fs (by rw [h]; exact nofun) .directory⟩
  · exact .inl (get?_put_of_ne fs hq .directory)

/-- One step depends on nothing but that there is a directory to take it from. -/
theorem follow_singleton {fs fs' : Files} {here : Place} (h : fs.get? here = some .directory)
    (h' : fs'.get? here = some .directory) (s : Step) :
    fs'.follow here [s] = fs.follow here [s] := by
  -- where the step ends nothing is asked of the place
  cases s <;> simp only [follow, h, h']

/-- A path that leads somewhere goes on leading there. -/
theorem follow_of_keeps {fs fs' : Files} (hkeeps : KeepsDirectories fs fs') {here q : Place}
    {way : List Step} (h : fs.follow here way = .ok q) : fs'.follow here way = .ok q := by
  induction way generalizing here with
  | nil => exact h
  | cons s way ih =>
    rw [follow_cons_append] at h ⊢
    cases ho : fs.follow here [s] with
    | error e =>
      rw [ho] at h
      cases h
    | ok o =>
      have hget := directory_of_follow ho
      rw [follow_singleton hget (hkeeps.stays here hget)]
      rw [ho] at h ⊢
      exact ih h

theorem resolve_of_keeps {fs fs' : Files} (hkeeps : KeepsDirectories fs fs') {q : Place}
    {way : List Step} (h : fs.resolve way = .ok q) : fs'.resolve way = .ok q := by
  rw [resolve, hkeeps.start_eq]
  exact follow_of_keeps hkeeps h

/-! ## Making directories -/

theorem makeAt_eq_ok_iff (fs fs' : Files) (p : Place) :
    fs.makeAt p = .ok fs' ↔ fs.get? p = none ∧ fs' = fs.put p .directory := by
  unfold makeAt
  cases fs.get? p with
  | none =>
    simp only [true_and]
    constructor
    · intro h
      cases h
      rfl
    · rintro rfl
      rfl
  | some n =>
    constructor
    · intro h
      cases h
    · rintro ⟨h, -⟩
      cases h

theorem grows_make {fs fs' : Files} {way : List Step} (h : fs.make way = .ok fs') :
    Grows fs fs' := by
  unfold make at h
  cases hfollow : fs.resolve way with
  | error e =>
    rw [hfollow] at h
    dsimp only [Except.bind] at h
    split at h
    · cases h
      exact Grows.refl fs
    · cases h
  | ok p =>
    rw [hfollow] at h
    dsimp only [Except.bind] at h
    cases hmake : fs.makeAt p with
    | error e =>
      rw [hmake] at h
      dsimp only at h
      split at h
      · cases h
        exact Grows.refl fs
      · cases h
    | ok made =>
      rw [hmake] at h
      cases h
      obtain ⟨hnone, rfl⟩ := (makeAt_eq_ok_iff fs fs' p).mp hmake
      exact grows_put_directory hnone

theorem grows_makeUpward (fs : Files) (way : List Step) : Grows fs (fs.makeUpward way).2 := by
  induction way generalizing fs with
  | nil => exact Grows.refl fs
  | cons s above ih =>
    rw [makeUpward]
    split
    · rename_i hmake
      exact grows_make hmake
    · split
      · rename_i hup
        have habove := ih fs
        rw [hup] at habove
        split
        · rename_i hmake
          exact habove.trans (grows_make hmake)
        · exact habove
      · rename_i hup
        have habove := ih fs
        rwa [hup] at habove
    · exact Grows.refl fs

/-- Making directories makes directories, whatever else comes of it. -/
theorem grows_makeAll (fs : Files) (way : List Step) : Grows fs (fs.makeAll way).2 :=
  grows_makeUpward fs way.reverse

/-! ## Writing -/

/-- The file at a place is made to hold a text; no other place changes but for new directories. -/
structure Writes (fs fs' : Files) (q : Place) (text : String) : Prop where
  start_eq : fs'.start = fs.start
  self : fs'.get? q = some (.text text)
  was_file : fs.get? q ≠ some .directory
  others : ∀ p, p ≠ q →
    fs'.get? p = fs.get? p ∨ (fs.get? p = none ∧ fs'.get? p = some .directory)

theorem Writes.keepsDirectories {fs fs' : Files} {q : Place} {text : String}
    (h : Writes fs fs' q text) : KeepsDirectories fs fs' := by
  refine ⟨h.start_eq, fun p hp => ?_⟩
  have hne : p ≠ q := by
    rintro rfl
    exact h.was_file hp
  rcases h.others p hne with heq | ⟨hnone, -⟩
  · rw [heq, hp]
  · rw [hp] at hnone
    cases hnone

theorem Writes.file_iff {fs fs' : Files} {q : Place} {text : String} (h : Writes fs fs' q text)
    {p : Place} (hp : p ≠ q) {n : Node} (hn : n ≠ .directory) :
    fs'.get? p = some n ↔ fs.get? p = some n := by
  rcases h.others p hp with heq | ⟨hnone, hdir⟩
  · rw [heq]
  · rw [hnone, hdir]
    exact ⟨fun h => absurd (Option.some.inj h).symm hn, fun h => nomatch h⟩

theorem Writes.of_grows {fs fs' fs'' : Files} {q : Place} {text : String} (h : Grows fs fs')
    (h' : Writes fs' fs'' q text) : Writes fs fs'' q text where
  start_eq := h'.start_eq.trans h.start_eq
  self := h'.self
  was_file hq := h'.was_file (h.keepsDirectories.stays q hq)
  others p hp := by
    rcases h'.others p hp with heq | ⟨hnone, hdir⟩
    · rcases h.places p with heq' | ⟨hnone, hdir⟩
      · exact .inl (heq.trans heq')
      · exact .inr ⟨hnone, heq.trans hdir⟩
    · rcases h.places p with heq' | ⟨-, hdir'⟩
      · exact .inr ⟨heq' ▸ hnone, hdir⟩
      · rw [hdir'] at hnone
        cases hnone

theorem writes_writeAt {fs fs' : Files} {q : Place} {text : String}
    (h : fs.writeAt q (.text text) = .ok fs') : Writes fs fs' q text := by
  unfold writeAt at h
  split at h
  · cases h
  · rename_i hfile
    cases h
    exact ⟨rfl, get?_put_self fs hfile _, hfile, fun p hp => .inl (get?_put_of_ne fs hp _)⟩

theorem locate_eq_ok_iff (fs : Files) (path : String) (q : Place) :
    fs.locate path = .ok q ↔ path ≠ "" ∧ fs.resolve (Path.route path) = .ok q := by
  unfold locate
  by_cases hp : path = ""
  · simp [hp]
  · simp [hp, String.isEmpty_iff]

theorem locate_of_keeps {fs fs' : Files} (h : KeepsDirectories fs fs') {path : String} {q : Place}
    (hq : fs.locate path = .ok q) : fs'.locate path = .ok q := by
  rw [locate_eq_ok_iff] at hq ⊢
  exact ⟨hq.1, resolve_of_keeps h hq.2⟩

theorem read_of_locate {fs : Files} {path content : String} {q : Place}
    (hq : fs.locate path = .ok q) (h : fs.get? q = some (.text content)) :
    fs.read path = .ok content := by
  unfold read
  rw [hq]
  show fs.readAt q = .ok content
  rw [readAt, h]

theorem exists_of_read {fs : Files} {path content : String} (h : fs.read path = .ok content) :
    ∃ q, fs.locate path = .ok q ∧ fs.get? q = some (.text content) := by
  unfold read at h
  cases hq : fs.locate path with
  | error e =>
    rw [hq] at h
    cases h
  | ok q =>
    rw [hq] at h
    have h : fs.readAt q = .ok content := h
    refine ⟨q, rfl, ?_⟩
    unfold readAt at h
    split at h
    · cases h
    · cases h
    · cases h
    · rename_i heq
      cases h
      exact heq

theorem exists_of_write {fs fs' : Files} {path text : String}
    (h : fs.write path (.text text) = .ok fs') :
    ∃ q, fs.locate path = .ok q ∧ Writes fs fs' q text := by
  unfold write at h
  cases hq : fs.locate path with
  | error e =>
    rw [hq] at h
    cases h
  | ok q =>
    rw [hq] at h
    exact ⟨q, rfl, writes_writeAt h⟩

end Files

end CommandBot
