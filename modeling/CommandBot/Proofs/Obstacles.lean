import CommandBot.Proofs.Following

/-
  What stands in the way of a directory. A way is blocked where a step from a directory leads
  nowhere but to a file. Nothing that is done to files takes a block away (`Blocked.of_keeps`), and
  making directories ends either with the directory in place or with a way that is blocked
  (`settles_makeAll`). Once it has ended so, to make them again changes nothing.
-/

namespace CommandBot.Files

/-- A file, of any content, at a place. -/
def IsFile (fs : Files) (p : Place) : Prop := ∃ n, n ≠ Node.directory ∧ fs.get? p = some n

/-- Directories stay directories and files stay files, whatever the files hold. -/
structure Keeps (fs fs' : Files) : Prop where
  directories : KeepsDirectories fs fs'
  files : ∀ p, fs.IsFile p → fs'.IsFile p

theorem Keeps.refl (fs : Files) : Keeps fs fs := ⟨.refl fs, fun _ h => h⟩

theorem Keeps.trans {fs fs' fs'' : Files} (h : Keeps fs fs') (h' : Keeps fs' fs'') :
    Keeps fs fs'' :=
  ⟨h.directories.trans h'.directories, fun p hp => h'.files p (h.files p hp)⟩

theorem Grows.keeps {fs fs' : Files} (h : Grows fs fs') : Keeps fs fs' where
  directories := h.keepsDirectories
  files := by
    rintro p ⟨n, hn, hp⟩
    exact ⟨n, hn, (h.file_iff p hn).mpr hp⟩

theorem Writes.keeps {fs fs' : Files} {q : Place} {text : String} (h : Writes fs fs' q text) :
    Keeps fs fs' where
  directories := h.keepsDirectories
  files := by
    rintro p ⟨n, hn, hp⟩
    by_cases hpq : p = q
    · subst hpq
      exact ⟨_, Node.text_ne_directory _, h.self⟩
    · exact ⟨n, hn, (h.file_iff hpq hn).mpr hp⟩

/-! ## Steps that do not move -/

/-- Steps that do not move can be added, on the way to a directory. -/
theorem follow_of_filter {fs : Files} {here o : Place} {way : List Step}
    (h : fs.follow here (way.filter (· != .here)) = .ok o) (ho : fs.get? o = some .directory) :
    fs.follow here way = .ok o := by
  induction way generalizing here with
  | nil => exact h
  | cons s way ih =>
    by_cases hs : s = .here
    · subst hs
      simp only [List.filter_cons, bne_self_eq_false, Bool.false_eq_true, if_false] at h
      have hdirectory : fs.get? here = some .directory := by
        rcases hway : way.filter (· != .here) with _ | ⟨t, rest⟩
        · rw [hway] at h
          cases h
          exact ho
        · rw [hway] at h
          exact directory_of_follow h
      simp only [follow, hdirectory]
      exact ih h
    · have hne : (s != .here) = true := by simpa using hs
      simp only [List.filter_cons, hne, if_true] at h
      rw [follow_cons_append] at h ⊢
      rcases hone : fs.follow here [s] with e | q
      · rw [hone] at h
        contradiction
      · rw [hone] at h
        exact ih h

theorem isDirectory_iff (fs : Files) (way : List Step) :
    fs.isDirectory way = true ↔
      ∃ q, fs.resolve way = .ok q ∧ fs.get? q = some .directory := by
  unfold isDirectory
  rcases fs.resolve way with e | q <;> simp

theorem isDirectory_of_keeps {fs fs' : Files} (h : KeepsDirectories fs fs') {way : List Step}
    (hway : fs.isDirectory way = true) : fs'.isDirectory way = true := by
  rw [isDirectory_iff] at hway ⊢
  obtain ⟨q, hq, hdirectory⟩ := hway
  exact ⟨q, resolve_of_keeps h hq, h.stays q hdirectory⟩

/-! ## Blocked ways -/

/-- From a place on, some step of the way that is taken from a directory leads nowhere but to a
file. -/
inductive Blocked (fs : Files) : Place → List Step → Prop
  | now {p : Place} {s : Step} {rest : List Step} (hp : fs.get? p = some .directory)
    (hstep : ∀ q, fs.follow p [s] = .ok q → fs.IsFile q) : Blocked fs p (s :: rest)
  | later {p q : Place} {s : Step} {rest : List Step} (hq : fs.follow p [s] = .ok q)
    (hrest : Blocked fs q rest) : Blocked fs p (s :: rest)

namespace Blocked

variable {fs fs' : Files} {p : Place} {way : List Step}

theorem of_keeps (h : Blocked fs p way) (hkeeps : Keeps fs fs') : Blocked fs' p way := by
  induction h with
  | now hp hstep =>
    have hp' := hkeeps.directories.stays _ hp
    refine .now hp' fun q hq => hkeeps.files q (hstep q ?_)
    rwa [follow_singleton hp hp'] at hq
  | later hq _ ih => exact .later (follow_of_keeps hkeeps.directories hq) ih

theorem append (h : Blocked fs p way) (t : List Step) : Blocked fs p (way ++ t) := by
  induction h with
  | now hp hstep => exact .now hp hstep
  | later hq _ ih => exact .later hq ih

/-- A way is blocked where the rest of it is. -/
theorem of_follow {o : Place} {w : List Step} (ho : fs.follow p w = .ok o)
    (h : Blocked fs o way) : Blocked fs p (w ++ way) := by
  induction w generalizing p with
  | nil =>
    cases ho
    exact h
  | cons s w ih =>
    rw [follow_cons_append] at ho
    rcases hq : fs.follow p [s] with e | q
    · rw [hq] at ho
      exact nomatch ho
    · rw [hq] at ho
      exact .later hq (ih ho)

/-- If a blocked way leads anywhere, it is to a file. -/
theorem isFile (h : Blocked fs p way) {q : Place} (hq : fs.follow p way = .ok q) :
    fs.IsFile q := by
  induction h with
  | @now p s rest hp hstep =>
    rw [follow_cons_append] at hq
    rcases ho : fs.follow p [s] with e | o
    · rw [ho] at hq
      exact nomatch hq
    · rw [ho] at hq
      have hq : fs.follow o rest = .ok q := hq
      have hfile := hstep o ho
      rcases rest with _ | ⟨t, rest⟩
      · cases hq
        exact hfile
      · obtain ⟨n, hn, hget⟩ := hfile
        rw [directory_of_follow hq] at hget
        exact absurd (Option.some.inj hget).symm hn
  | later ho _ ih =>
    rw [follow_cons_append, ho] at hq
    exact ih hq

theorem isDirectory_eq_false (h : Blocked fs fs.start way) : fs.isDirectory way = false := by
  rw [Bool.eq_false_iff]
  intro hway
  obtain ⟨q, hq, hdirectory⟩ := (isDirectory_iff fs way).mp hway
  obtain ⟨n, hn, hget⟩ := h.isFile hq
  rw [hdirectory] at hget
  exact hn (Option.some.inj hget).symm

/-- The block is at the last step, or the way is blocked before. -/
theorem cut {s : Step} (h : Blocked fs p (way ++ [s])) :
    Blocked fs p way ∨ ∃ o, fs.follow p way = .ok o ∧ fs.get? o = some .directory := by
  induction way generalizing p with
  | nil =>
    rcases h with ⟨hp, -⟩ | ⟨-, hrest⟩
    · exact .inr ⟨p, rfl, hp⟩
    · exact nomatch hrest
  | cons t way ih =>
    rcases h with ⟨hp, hstep⟩ | ⟨hq, hrest⟩
    · exact .inl (.now hp hstep)
    · rcases ih hrest with hblocked | ⟨o, ho, hdirectory⟩
      · exact .inl (.later hq hblocked)
      · refine .inr ⟨o, ?_, hdirectory⟩
        rw [follow_cons_append, hq]
        exact ho

end Blocked

/-- Only what is missing can be made: any other fault on the way is a block. -/
theorem blocked_of_follow {fs : Files} {p : Place} {way : List Step} {e : FileFault}
    (hp : fs.get? p = some .directory) (h : fs.follow p way = .error e) (he : e ≠ .notFound) :
    Blocked fs p way := by
  induction way generalizing p with
  | nil => exact nomatch h
  | cons s way ih =>
    rw [follow_cons_append] at h
    rcases hq : fs.follow p [s] with f | q
    · exact .now hp fun o ho => nomatch hq.symm.trans ho
    · rw [hq] at h
      have h : fs.follow q way = .error e := h
      rcases hnode : fs.get? q with _ | n
      · rcases way with _ | ⟨t, way⟩
        · exact nomatch h
        · simp only [follow, hnode] at h
          exact absurd (Except.error.inj h).symm he
      · by_cases hn : n = .directory
        · subst hn
          exact .later hq (ih hnode h)
        · refine .now hp fun o ho => ?_
          obtain rfl := Except.ok.inj (hq.symm.trans ho)
          exact ⟨n, hn, hnode⟩

/-! ## Making directories again -/

theorem make_eq_ok_iff (fs fs' : Files) (way : List Step) :
    fs.make way = .ok fs' ↔
      (fs.isDirectory way = true ∧ fs' = fs) ∨
        ∃ p, fs.resolve way = .ok p ∧ fs.get? p = none ∧ fs' = fs.put p .directory := by
  unfold make isDirectory
  rcases fs.resolve way with e | p
  · simp [Except.bind]
  · rcases hget : fs.get? p with _ | n
    · have hmade := (makeAt_eq_ok_iff fs (fs.put p .directory) p).mpr ⟨hget, rfl⟩
      simp [Except.bind, hmade, hget, eq_comm]
    · have hthere : fs.makeAt p = .error .alreadyThere := by
        rw [makeAt, hget]
      by_cases hn : n = .directory <;> simp [Except.bind, hthere, hget, hn, eq_comm]

theorem isDirectory_of_make {fs fs' : Files} {way : List Step} (h : fs.make way = .ok fs') :
    fs'.isDirectory way = true := by
  rcases (make_eq_ok_iff fs fs' way).mp h with ⟨hway, rfl⟩ | ⟨p, hp, hnone, rfl⟩
  · exact hway
  · rw [isDirectory_iff]
    exact ⟨p, resolve_of_keeps (grows_put_directory hnone).keepsDirectories hp,
      get?_put_self fs (by rw [hnone]; exact nofun) _⟩

/-- A directory that cannot be made is missing what it should be in, or its way is blocked. -/
theorem blocked_of_make {fs : Files} {way : List Step} {s : Step} {e : FileFault}
    (h : fs.make (way ++ [s]) = .error e) (hup : e ≠ .notFound ∨ fs.isDirectory way = true) :
    Blocked fs fs.start (way ++ [s]) := by
  have hnot : ∀ fs', fs.make (way ++ [s]) ≠ .ok fs' := fun fs' h' => nomatch h.symm.trans h'
  rcases hq : fs.resolve (way ++ [s]) with f | q
  · rcases hup with he | hway
    · have hf : f = e := by
        unfold make at h
        rw [hq] at h
        dsimp only [Except.bind] at h
        split at h
        · exact nomatch h
        · exact Except.error.inj h
      exact blocked_of_follow fs.get?_start hq (hf ▸ he)
    · obtain ⟨o, ho, hdirectory⟩ := (isDirectory_iff fs way).mp hway
      refine .of_follow ho (.now hdirectory fun q' hq' => ?_)
      rw [(resolve_append_eq_ok_iff fs q' way [s]).mpr ⟨o, ho, hq'⟩] at hq
      exact nomatch hq
  · obtain ⟨o, ho, hstep⟩ := (resolve_append_eq_ok_iff fs q way [s]).mp hq
    refine .of_follow ho (.now (directory_of_follow hstep) fun q' hq' => ?_)
    obtain rfl := Except.ok.inj (hstep.symm.trans hq')
    rcases hget : fs.get? q with _ | n
    · exact absurd ((make_eq_ok_iff fs _ _).mpr (.inr ⟨q, hq, hget, rfl⟩)) (hnot _)
    · refine ⟨n, ?_, hget⟩
      rintro rfl
      have hthere : fs.isDirectory (way ++ [s]) = true :=
        (isDirectory_iff fs _).mpr ⟨q, hq, hget⟩
      exact hnot _ ((make_eq_ok_iff fs _ _).mpr (.inl ⟨hthere, rfl⟩))

/-- What making directories comes to: the last one is there, or its way is blocked. -/
def Settles (way : List Step) (r : Except FileFault Unit × Files) : Prop :=
  match r.1 with
  | .ok _ => r.2.isDirectory way = true
  | .error _ => Blocked r.2 r.2.start way

theorem settles_makeUpward (fs : Files) (way : List Step) :
    Settles way.reverse (fs.makeUpward way) := by
  induction way generalizing fs with
  | nil => exact (isDirectory_iff fs []).mpr ⟨fs.start, rfl, fs.get?_start⟩
  | cons s above ih =>
    rw [makeUpward, List.reverse_cons]
    split
    · rename_i hmake
      exact isDirectory_of_make hmake
    · have habove := ih fs
      split
      · rename_i hup
        rw [hup] at habove
        split
        · rename_i hmake
          exact isDirectory_of_make hmake
        · rename_i hmake
          exact blocked_of_make hmake (.inr habove)
      · rename_i hup
        rw [hup] at habove
        exact Blocked.append habove [s]
    · rename_i e he hmake
      exact blocked_of_make hmake (.inl he)

theorem settles_makeAll (fs : Files) (way : List Step) : Settles way (fs.makeAll way) := by
  have := settles_makeUpward fs way.reverse
  rwa [List.reverse_reverse] at this

theorem makeUpward_of_isDirectory {fs : Files} {way : List Step}
    (h : fs.isDirectory way.reverse = true) : fs.makeUpward way = (.ok (), fs) := by
  rcases way with _ | ⟨s, above⟩
  · rw [makeUpward]
  · rw [makeUpward, (make_eq_ok_iff fs fs _).mpr (.inl ⟨h, rfl⟩)]

theorem makeAll_of_isDirectory {fs : Files} {way : List Step} (h : fs.isDirectory way = true) :
    fs.makeAll way = (.ok (), fs) :=
  makeUpward_of_isDirectory (by rwa [List.reverse_reverse])

/-- Nothing can be made at the end of a blocked way. -/
theorem Blocked.make_eq_error {fs : Files} {way : List Step} (h : Blocked fs fs.start way) :
    ∃ e, fs.make way = .error e := by
  rcases hmade : fs.make way with e | fs'
  · exact ⟨e, rfl⟩
  · rcases (make_eq_ok_iff fs fs' way).mp hmade with ⟨hway, -⟩ | ⟨p, hp, hnone, -⟩
    · rw [h.isDirectory_eq_false] at hway
      exact nomatch hway
    · obtain ⟨n, -, hget⟩ := h.isFile hp
      exact nomatch hnone.symm.trans hget

theorem makeUpward_of_blocked {fs : Files} {way : List Step} (h : Blocked fs fs.start way.reverse) :
    ∃ e, fs.makeUpward way = (.error e, fs) := by
  induction way with
  | nil => exact nomatch h
  | cons s above ih =>
    -- whether or not those above are there, the last one cannot be made
    obtain ⟨e, hmake⟩ := h.make_eq_error
    rw [List.reverse_cons] at h hmake
    rcases h.cut with hblocked | ⟨o, ho, hdirectory⟩
    · obtain ⟨f, hup⟩ := ih hblocked
      cases e <;> simp [makeUpward, hmake, hup]
    · have hup := makeUpward_of_isDirectory ((isDirectory_iff fs _).mpr ⟨o, ho, hdirectory⟩)
      cases e <;> simp [makeUpward, hmake, hup]

theorem makeAll_of_blocked {fs : Files} {way : List Step} (h : Blocked fs fs.start way) :
    ∃ e, fs.makeAll way = (.error e, fs) :=
  makeUpward_of_blocked (by rwa [List.reverse_reverse])

/-! ## The directory of a file -/

/-- What contains a path that ends in a name: the way to that name, but for steps that do not
move. -/
theorem exists_parent {path n : String} {way : List Step}
    (h : Path.route path = way ++ [.name n]) :
    ∃ first rest, way = first ++ rest ∧
      Path.parent? path = some (first ++ rest.filter (· != .here)) := by
  have hparent : ∀ before : List Step, Path.steps path = before ++ [.name n] →
      Path.parent? path = some before := by
    intro before hsteps
    unfold Path.parent?
    rw [hsteps]
    split
    · rename_i heq
      simp at heq
    · rename_i heq
      rcases before with _ | ⟨s, before⟩ <;> simp at heq
    · rw [List.dropLast_concat]
  rcases way with _ | ⟨s, way⟩
  · exact ⟨[], [], rfl, hparent [] (by rw [Path.steps, h]; rfl)⟩
  · by_cases hs : s = .here
    · subst hs
      refine ⟨[.here], way, rfl, hparent _ ?_⟩
      rw [Path.steps, h]
      simp
    · refine ⟨[], s :: way, rfl, hparent _ ?_⟩
      rw [Path.steps, h]
      split
      · rename_i heq
        exact absurd (List.cons.inj heq).1 hs
      · rw [List.filter_append]
        rfl

/-- The way to the last name of a path leads to the directory that contains the path. -/
theorem exists_of_parent {fs : Files} {path n : String} {way : List Step}
    (h : Path.route path = way ++ [.name n])
    (hparent : fs.isDirectory ((Path.parent? path).getD []) = true) :
    ∃ o, fs.resolve way = .ok o ∧ fs.get? o = some .directory := by
  obtain ⟨first, rest, rfl, hway⟩ := exists_parent h
  rw [hway, Option.getD_some, isDirectory_iff] at hparent
  obtain ⟨o, ho, hdirectory⟩ := hparent
  obtain ⟨m, hm, hrest⟩ := (resolve_append_eq_ok_iff fs o _ _).mp ho
  refine ⟨o, (resolve_append_eq_ok_iff fs o _ _).mpr ⟨m, hm, ?_⟩, hdirectory⟩
  exact follow_of_filter hrest hdirectory

/-- Once there is a directory for it, a path leads to the same place for good, or nowhere for
good. -/
theorem locate_eq_of_keeps {fs fs' : Files} (hkeeps : KeepsDirectories fs fs') {path n : String}
    {way : List Step} (h : Path.route path = way ++ [.name n])
    (hparent : fs.isDirectory ((Path.parent? path).getD []) = true) :
    fs'.locate path = fs.locate path := by
  obtain ⟨o, ho, hdirectory⟩ := exists_of_parent h hparent
  unfold locate
  rw [h, resolve, resolve, hkeeps.start_eq, follow_append, follow_append, follow_of_keeps hkeeps ho]
  rw [resolve] at ho
  rw [ho]
  show (if path.isEmpty then _ else fs'.follow o [.name n]) = if path.isEmpty then _ else
    fs.follow o [.name n]
  rw [follow_singleton hdirectory (hkeeps.stays o hdirectory)]

end CommandBot.Files
