import CommandBot.Proofs.Emitted
import CommandBot.Proofs.Isolation
import CommandBot.Proofs.RenderedUnit

/-
  Where the bots of a source file are emitted. A namespace is put together from the names of
  directories and of modules and cut again at each pair of colons; a part of it that is `.` or `..`
  leads out of the directory of its module. `ofFile_confined`: unless a name on the source's path has
  such a part, every unit goes to names below the output directory and no file elsewhere changes.
  `ofFile_escapes` is a source whose name alone leads out.
-/

namespace CommandBot

namespace Namespace

/-- The parts of a text between its colons. -/
def colonParts (cs : List Char) : List (List Char) := cs.splitOnP (· == ':')

/-- Whether a part names no module but the place it is at, or the one above. -/
def isSpecial (part : List Char) : Bool := part == ['.'] || part == ['.', '.']

/-- Whether no name that a source's path gives to its module has a special part. -/
def isPlain (path : String) : Bool :=
  ((belowSource (names path)).map stem).all fun s => (colonParts s.toList).all fun p => !isSpecial p

/-- A text that is neither cut by slashes nor special between its colons. -/
structure IsHarmless (cs : List Char) : Prop where
  no_slash : '/' ∉ cs
  parts : ∀ part ∈ colonParts cs, isSpecial part = false

theorem colonParts_cons (c : Char) (cs : List Char) :
    colonParts (c :: cs) =
      if c = ':' then [] :: colonParts cs else (colonParts cs).modifyHead (c :: ·) := by
  rw [colonParts, List.splitOnP_cons_eq_if_modifyHead]
  simp only [beq_iff_eq]
  rfl

theorem colonParts_append_colon (as bs : List Char) :
    colonParts (as ++ ':' :: bs) = colonParts as ++ colonParts bs :=
  List.splitOnP_append_cons _ _ rfl

theorem isHarmless_nil : IsHarmless [] where
  no_slash := List.not_mem_nil
  parts part hpart := by
    rw [List.mem_singleton.mp hpart]
    rfl

/-- Harmless texts stay so with a pair of colons between them. -/
theorem IsHarmless.append {as bs : List Char} (ha : IsHarmless as) (hb : IsHarmless bs) :
    IsHarmless (as ++ ':' :: ':' :: bs) where
  no_slash h := by
    rcases List.mem_append.mp h with h | h
    · exact ha.no_slash h
    · have hne : ¬ '/' = ':' := by decide
      rw [List.mem_cons, List.mem_cons, or_iff_right hne, or_iff_right hne] at h
      exact hb.no_slash h
  parts part hpart := by
    have hpair : colonParts (':' :: bs) = [] :: colonParts bs := by
      rw [colonParts_cons, if_pos rfl]
    rw [colonParts_append_colon, hpair, List.mem_append, List.mem_cons] at hpart
    rcases hpart with hpart | rfl | hpart
    · exact ha.parts part hpart
    · rfl
    · exact hb.parts part hpart

theorem isHarmless_intercalate {ts : List (List Char)} (h : ∀ t ∈ ts, IsHarmless t) :
    IsHarmless ([':', ':'].intercalate ts) := by
  induction ts with
  | nil => exact isHarmless_nil
  | cons t ts ih =>
    have hts := ih fun s hs => h s (List.mem_cons_of_mem _ hs)
    have ht := h t List.mem_cons_self
    cases ts with
    | nil => rwa [List.intercalate_singleton]
    | cons t' ts =>
      rw [List.intercalate_cons_cons, List.append_assoc]
      exact ht.append hts

/-- A text without colons is its only part. -/
theorem colonParts_eq_singleton {cs : List Char} (h : ':' ∉ cs) : colonParts cs = [cs] := by
  rw [colonParts, List.splitOnP_eq_singleton]
  intro c hc
  rw [beq_eq_false_iff_ne]
  rintro rfl
  exact h hc

/-! ## Words -/

theorem mem_of_isWord {cs : List Char} (h : Piece.isWord cs = true) {c : Char} (hc : c ∈ cs) :
    Text.isIdentifierPart c = true ∨ c = '#' := by
  have hidentifier : ∀ {cs : List Char}, Piece.isIdentifier cs = true → c ∈ cs →
      Text.isIdentifierPart c = true := by
    intro cs h hc
    cases cs with
    | nil => cases h
    | cons d cs =>
      rw [Piece.isIdentifier, Bool.and_eq_true, List.all_eq_true] at h
      rcases List.mem_cons.mp hc with rfl | hc
      · exact Text.isIdentifierPart_of_isIdentifierStart h.1
      · exact h.2 c hc
  unfold Piece.isWord at h
  split at h
  · rw [Bool.and_eq_true] at h
    rcases List.mem_cons.mp hc with rfl | hc
    · exact .inl (by decide)
    · rcases List.mem_cons.mp hc with rfl | hc
      · exact .inr rfl
      · exact .inl (hidentifier h.1 hc)
  · exact .inl (hidentifier h hc)

theorem not_mem_of_isWord {cs : List Char} (h : Piece.isWord cs = true) {c : Char}
    (hpart : Text.isIdentifierPart c = false) (hne : c ≠ '#') : c ∉ cs := by
  intro hc
  rcases mem_of_isWord h hc with hpart' | rfl
  · rw [hpart] at hpart'
    cases hpart'
  · exact hne rfl

theorem isHarmless_of_isWord {cs : List Char} (h : Piece.isWord cs = true) : IsHarmless cs where
  no_slash := not_mem_of_isWord h (by decide) (by decide)
  parts part hpart := by
    rw [colonParts_eq_singleton (not_mem_of_isWord h (by decide) (by decide)),
      List.mem_singleton] at hpart
    subst hpart
    have hdot : '.' ∉ part := not_mem_of_isWord h (by decide) (by decide)
    rw [isSpecial, Bool.or_eq_false_iff, beq_eq_false_iff_ne, beq_eq_false_iff_ne]
    constructor <;> rintro rfl <;> exact hdot (by decide)

/-! ## Paths of sources -/

theorem not_mem_of_mem_splitOnP {p : Char → Bool} {cs part : List Char}
    (h : part ∈ cs.splitOnP p) {c : Char} (hc : p c = true) : c ∉ part := by
  induction cs generalizing part with
  | nil =>
    rw [List.splitOnP_nil, List.mem_singleton] at h
    rw [h]
    exact List.not_mem_nil
  | cons d cs ih =>
    rw [List.splitOnP_cons_eq_if_modifyHead] at h
    split at h
    · rcases List.mem_cons.mp h with rfl | h
      · exact List.not_mem_nil
      · exact ih h
    · rename_i hd
      cases hcs : cs.splitOnP p with
      | nil => exact absurd hcs (List.splitOnP_ne_nil p cs)
      | cons first rest =>
        rw [hcs, List.modifyHead_cons] at h
        rw [hcs] at ih
        rcases List.mem_cons.mp h with rfl | h
        · rw [List.mem_cons, not_or]
          refine ⟨?_, ih List.mem_cons_self⟩
          rintro rfl
          exact hd hc
        · exact ih (List.mem_cons_of_mem _ h)

theorem not_mem_names {path name : String} (h : name ∈ names path) : '/' ∉ name.toList := by
  obtain ⟨part, hpart, rfl⟩ := List.mem_map.mp (List.mem_filter.mp h).1
  rw [String.toList_ofList]
  exact not_mem_of_mem_splitOnP hpart rfl

theorem mem_of_mem_belowSource {ns : List String} {name : String} (h : name ∈ belowSource ns) :
    name ∈ ns := by
  unfold belowSource at h
  split at h
  · rw [List.mem_reverse] at h
    exact List.mem_reverse.mp ((List.takeWhile_prefix _).subset h)
  · cases hlast : ns.getLast? with
    | none =>
      rw [hlast] at h
      exact absurd h List.not_mem_nil
    | some last =>
      rw [hlast] at h
      rw [List.mem_singleton.mp h]
      exact List.mem_of_getLast? hlast

theorem mem_of_mem_stem {name : String} {c : Char} (h : c ∈ (stem name).toList) :
    c ∈ name.toList := by
  unfold stem at h
  split at h
  · rename_i rest heq
    rw [String.toList_ofList, List.mem_reverse] at h
    rw [← List.mem_reverse, heq]
    exact List.mem_cons_of_mem _ (List.mem_cons_of_mem _ (List.mem_cons_of_mem _ h))
  · exact h

theorem mem_stems_of_mem_segments {below : List String} {s : String} (h : s ∈ segments below) :
    s ∈ below.map stem := by
  unfold segments at h
  split at h
  · exact absurd h List.not_mem_nil
  · dsimp only at h
    split at h
    · split at h
      · exact (List.dropLast_prefix _).subset h
      · exact h
    · exact absurd h List.not_mem_nil

/-- The namespace of a plain path is harmless. -/
theorem isHarmless_ofPath {path : String} (h : isPlain path = true) :
    IsHarmless (ofPath path).toList := by
  rw [ofPath, String.toList_intercalate]
  refine isHarmless_intercalate fun t ht => ?_
  obtain ⟨s, hs, rfl⟩ := List.mem_map.mp ht
  have hstem := mem_stems_of_mem_segments hs
  constructor
  · obtain ⟨name, hname, rfl⟩ := List.mem_map.mp hstem
    intro hslash
    exact not_mem_names (mem_of_mem_belowSource hname) (mem_of_mem_stem hslash)
  · intro part hpart
    rw [isPlain, List.all_eq_true] at h
    have := List.all_eq_true.mp (h s hstem) part hpart
    rwa [Bool.not_eq_true'] at this

end Namespace

open Namespace

/-! ## Directories of modules -/

namespace CodeUnit

theorem mem_of_mem_splitColons {cs part : List Char} (h : part ∈ splitColons cs) {c : Char}
    (hc : c ∈ part) : c ∈ cs := by
  fun_induction splitColons cs generalizing part with
  | case1 =>
    rw [List.mem_singleton.mp h] at hc
    exact hc
  | case2 rest ih =>
    rcases List.mem_cons.mp h with rfl | h
    · exact absurd hc List.not_mem_nil
    · exact List.mem_cons_of_mem _ (List.mem_cons_of_mem _ (ih h hc))
  | case3 d rest _ hnil _ => exact absurd hnil (splitColons_ne_nil rest)
  | case4 d rest _ first parts hrest ih =>
    rw [hrest] at ih
    rcases List.mem_cons.mp h with rfl | h
    · rcases List.mem_cons.mp hc with rfl | hc
      · exact List.mem_cons_self
      · exact List.mem_cons_of_mem _ (ih List.mem_cons_self hc)
    · exact List.mem_cons_of_mem _ (ih (List.mem_cons_of_mem _ h) hc)

/-- Of the parts between pairs of colons, those without a colon are parts between colons; the first
is the first there too. -/
theorem colonParts_of_splitColons {cs first : List Char} {rest : List (List Char)}
    (h : splitColons cs = first :: rest) :
    (':' ∉ first → (colonParts cs).head? = some first) ∧
      ∀ part ∈ rest, ':' ∉ part → part ∈ (colonParts cs).tail := by
  fun_induction splitColons cs generalizing first rest with
  | case1 =>
    cases h
    exact ⟨fun _ => rfl, fun part hpart => absurd hpart List.not_mem_nil⟩
  | case2 after ih =>
    cases h
    have hparts : colonParts (':' :: ':' :: after) = [] :: [] :: colonParts after := by
      rw [colonParts_cons, if_pos rfl, colonParts_cons, if_pos rfl]
    rw [hparts]
    refine ⟨fun _ => rfl, fun part hpart hcolon => List.mem_cons_of_mem _ ?_⟩
    cases hafter : splitColons after with
    | nil => exact absurd hafter (splitColons_ne_nil after)
    | cons f r =>
      rw [hafter] at hpart
      obtain ⟨hhead, htail⟩ := ih hafter
      rcases List.mem_cons.mp hpart with rfl | hpart
      · exact List.mem_of_mem_head? (hhead hcolon)
      · exact List.mem_of_mem_tail (htail part hpart hcolon)
  | case3 c after _ hnil _ => exact absurd hnil (splitColons_ne_nil after)
  | case4 c after _ f r hafter ih =>
    cases h
    obtain ⟨hhead, htail⟩ := ih hafter
    rw [colonParts_cons]
    split
    · rename_i hc
      refine ⟨fun hcolon => absurd (hc ▸ List.mem_cons_self) hcolon, fun part hpart hcolon => ?_⟩
      exact List.mem_of_mem_tail (htail part hpart hcolon)
    · cases hparts : colonParts after with
      | nil => exact absurd hparts (List.splitOnP_ne_nil _ _)
      | cons g s =>
        rw [hparts] at hhead htail
        refine ⟨fun hcolon => ?_, htail⟩
        have := hhead fun h => hcolon (List.mem_cons_of_mem _ h)
        rw [Option.some.inj this]
        rfl

/-- The modules of a harmless namespace are names of directories. -/
theorem isOrdinary_of_mem_segments {n : String} (h : IsHarmless n.toList) {s : String}
    (hs : s ∈ segments n) : Path.IsOrdinary s := by
  obtain ⟨hmem, hne⟩ := List.mem_filter.mp hs
  obtain ⟨part, hpart, rfl⟩ := List.mem_map.mp hmem
  have hspecial : ':' ∉ part → isSpecial part = false := by
    intro hcolon
    refine h.parts part ?_
    cases hsplit : splitColons n.toList with
    | nil => exact absurd hsplit (splitColons_ne_nil _)
    | cons f r =>
      rw [hsplit] at hpart
      obtain ⟨hhead, htail⟩ := colonParts_of_splitColons hsplit
      rcases List.mem_cons.mp hpart with rfl | hpart
      · exact List.mem_of_mem_head? (hhead hcolon)
      · exact List.mem_of_mem_tail (htail part hpart hcolon)
  refine ⟨by simpa using hne, ?_, ?_, ?_⟩
  · intro heq
    obtain rfl : part = ".".toList := by rw [← heq, String.toList_ofList]
    exact absurd (hspecial (by decide)) (by decide)
  · intro heq
    obtain rfl : part = "..".toList := by rw [← heq, String.toList_ofList]
    exact absurd (hspecial (by decide)) (by decide)
  · rw [String.toList_ofList]
    exact fun hslash => h.no_slash (mem_of_mem_splitColons hpart hslash)

/-- The names of a unit's file, for a bot with a proper name in a harmless namespace. -/
theorem isOrdinary_of_mem_fileNames {u : CodeUnit} (hnamespace : IsHarmless u.namespace_.toList)
    (hname : Piece.isWord u.name.toList = true) : ∀ n ∈ u.fileNames, Path.IsOrdinary n := by
  intro n hn
  rcases List.mem_append.mp hn with hn | hn
  · exact isOrdinary_of_mem_segments hnamespace hn
  · rw [List.mem_singleton.mp hn]
    exact isOrdinary_fileName (not_mem_of_isWord hname (by decide) (by decide))

/-- The path of such a unit goes from name to name. -/
theorem steps_relativePath {u : CodeUnit} (h : ∀ n ∈ u.fileNames, Path.IsOrdinary n) :
    Path.steps u.relativePath = u.fileNames.map .name := by
  have hroute := Path.route_of_isWay (isWay_relativePath h) h
  have hmoves : ∀ ns : List String, (ns.map Step.name).filter (· != .here) = ns.map .name := by
    intro ns
    rw [List.filter_eq_self]
    intro s hs
    obtain ⟨n, -, rfl⟩ := List.mem_map.mp hs
    rfl
  rw [Path.steps, hroute]
  split
  · rename_i heq
    cases hnames : u.fileNames with
    | nil => rw [hnames] at heq; cases heq
    | cons n ns => rw [hnames] at heq; cases heq
  · exact hmoves _

end CodeUnit

/-! ## Files below the output directory -/

namespace OutputDirectory

/-- From the first files to the second no directory is lost, and only files below the output
directory are made or changed. -/
structure Confines (path : String) (fs fs' : Files) : Prop where
  keeps : Files.KeepsDirectories fs fs'
  below : ∀ (q : Place) (n : Node), n ≠ .directory →
    (fs'.get? q = some n ↔ fs.get? q = some n) ∨
      ∃ o ns, ns ≠ [] ∧ fs'.resolve (Path.route path) = .ok o ∧ q = o ++ ns

theorem Confines.refl (path : String) (fs : Files) : Confines path fs fs :=
  ⟨.refl fs, fun _ _ _ => .inl Iff.rfl⟩

theorem Confines.trans {path : String} {fs fs' fs'' : Files} (h : Confines path fs fs')
    (h' : Confines path fs' fs'') : Confines path fs fs'' where
  keeps := h.keeps.trans h'.keeps
  below q n hn := by
    rcases h'.below q n hn with hsame | hbelow
    · rcases h.below q n hn with hsame' | ⟨o, ns, hne, ho, hq⟩
      · exact .inl (hsame.trans hsame')
      · exact .inr ⟨o, ns, hne, Files.resolve_of_keeps h'.keeps ho, hq⟩
    · exact .inr hbelow

/-- The place of a unit whose path goes from name to name is below the output directory. -/
theorem exists_of_locate {d : OutputDirectory} {fs : Files} {u : CodeUnit} {q : Place}
    (hnames : ∀ n ∈ u.fileNames, Path.IsOrdinary n) (hq : fs.locate (d.pathOf u) = .ok q) :
    ∃ o, fs.resolve (Path.route d.path) = .ok o ∧ q = o ++ u.fileNames := by
  obtain ⟨w, hw, hroute⟩ := Path.exists_route_push d.path
  have hlead := ((Files.locate_eq_ok_iff _ _ _).mp hq).2
  have hpath : Path.route (d.pathOf u) = w ++ u.fileNames.map .name :=
    (hroute (CodeUnit.isWay_relativePath hnames) hnames).2
  rw [hpath, Files.resolve_append_eq_ok_iff] at hlead
  obtain ⟨o, ho, hbelow⟩ := hlead
  refine ⟨o, ?_, Files.follow_names hbelow⟩
  rcases hw with hw | hw
  · rw [hw, ho]
  · have hdirectory : fs.get? o = some .directory := by
      cases hfile : u.fileNames with
      | nil => exact absurd hfile (by simp [CodeUnit.fileNames])
      | cons n ns =>
        rw [hfile] at hbelow
        exact Files.directory_of_follow hbelow
    rw [hw, Files.resolve_append_eq_ok_iff]
    refine ⟨o, ho, ?_⟩
    simp only [Files.follow, hdirectory]

theorem confines_emit (d : OutputDirectory) (fs : Files) {u : CodeUnit} (deps : Dependencies)
    (hnames : ∀ n ∈ u.fileNames, Path.IsOrdinary n) :
    (d.emit fs u deps).value.2.1.path = d.path ∧
      Confines d.path fs (d.emit fs u deps).value.2.2 := by
  have hemits := emits d fs u deps
  generalize (d.emit fs u deps).value = result at hemits
  cases hemits with
  | refused h => exact ⟨rfl, Confines.refl _ _⟩
  | failed h hgrows =>
    exact ⟨rfl, hgrows.keepsDirectories, fun q n hn => .inl (hgrows.file_iff q hn)⟩
  | @written place _ h hq hwrites =>
    refine ⟨rfl, hwrites.keepsDirectories, fun p n hn => ?_⟩
    by_cases hp : p = place
    · obtain ⟨o, ho, hbelow⟩ := exists_of_locate hnames hq
      exact .inr ⟨o, u.fileNames, by simp [CodeUnit.fileNames], ho, hp.trans hbelow⟩
    · exact .inl (hwrites.file_iff hp hn)

end OutputDirectory

/-! ## Bots of a file -/

/-- A declaration whose unit stays below the output directory. -/
structure Declaration.IsPlaced (d : Declaration) : Prop where
  namespace_ : IsHarmless d.namespace_.toList
  name : Piece.isWord d.unitName.toList = true

mutual

theorem Item.isHarmless_blocks {n : String} (hn : IsHarmless n.toList) : ∀ i : Item, i.IsLegible →
    ∀ c ∈ i.blocks n, IsHarmless c.1.toList ∧ c.2.IsLegible
  | .block b, .block hb, c, hc => by
    rw [Item.blocks, List.mem_singleton] at hc
    subst hc
    exact ⟨hn, hb⟩
  | .module name items, .module hname hitems, c, hc => by
    rw [Item.blocks] at hc
    refine Item.isHarmless_blocksOf ?_ items hitems c hc
    unfold Declaration.joinNamespace
    split
    · exact isHarmless_of_isWord hname
    · rw [String.toList_append, String.toList_append, List.append_assoc]
      exact hn.append (isHarmless_of_isWord hname)
  | .other, _, c, hc => by
    rw [Item.blocks] at hc
    exact absurd hc List.not_mem_nil

theorem Item.isHarmless_blocksOf {n : String} (hn : IsHarmless n.toList) : ∀ items : List Item,
    (∀ i ∈ items, i.IsLegible) → ∀ c ∈ Item.blocksOf n items, IsHarmless c.1.toList ∧ c.2.IsLegible
  | [], _, c, hc => by
    rw [Item.blocksOf] at hc
    exact absurd hc List.not_mem_nil
  | i :: rest, hitems, c, hc => by
    rw [Item.blocksOf, List.mem_append] at hc
    rcases hc with hc | hc
    · exact Item.isHarmless_blocks hn i (hitems i List.mem_cons_self) c hc
    · exact Item.isHarmless_blocksOf hn rest
        (fun j hj => hitems j (List.mem_cons_of_mem _ hj)) c hc

end

namespace Generation

theorem exists_parse?_of_load {files : Files} {path : String} {f : SourceFile}
    (h : load files path = .ok f) : ∃ text, SourceFile.parse? text = some f := by
  unfold load at h
  split at h
  · cases h
  · rename_i text _
    refine ⟨text, ?_⟩
    unfold parse at h
    rw [SourceFile.parse?]
    split at h
    · cases h
    · rename_i htokens
      rw [htokens, Option.bind_some]
      split at h
      · cases h
      · rename_i hitems
        rw [hitems, Except.ok.inj h]

/-- The bots of a file with a plain path have places below the output directory. -/
theorem isPlaced_of_mem_ofFile {files : Files} {path : String} {f : SourceFile}
    (hpath : isPlain path = true) (hload : load files path = .ok f) {d : Declaration}
    (hd : .ok d ∈ (Declaration.ofFile f (ofPath path) (some path)).value) : d.IsPlaced := by
  obtain ⟨text, htext⟩ := exists_parse?_of_load hload
  rw [Declaration.value_ofFile] at hd
  obtain ⟨c, hc, hblock⟩ := List.mem_map.mp hd
  obtain ⟨hnamespace, hlegible⟩ := Item.isHarmless_blocksOf (isHarmless_ofPath hpath) f.items
    (SourceFile.isLegible_of_parse? htext) c (List.mem_filter.mp hc).1
  refine ⟨?_, d.isSound_unitName (Declaration.isLegible_of_ofBlock hlegible hblock).name⟩
  unfold Declaration.ofBlock at hblock
  split at hblock
  · cases hblock
  · split at hblock
    · cases hblock
      exact hnamespace
    · cases hblock

/-- What generating one bot comes to: no file elsewhere than below the output directory changes, and
the unit, if there is one, has its place there. -/
structure Stays (path : String) (fs : Files) (r : Except Fault CodeUnit) (w : Workspace) : Prop where
  sink : ∃ d : OutputDirectory, w.sink = .directory d ∧ d.path = path
  files : OutputDirectory.Confines path fs w.files
  placed : ∀ u, r = .ok u → ∀ n ∈ u.fileNames, Path.IsOrdinary n

theorem value_bind {α β : Type} (m : Work α) (next : α → Work β) (w : Workspace) :
    ((m >>= next) w).value = (next (m w).value.1 (m w).value.2).value := rfl

theorem value_ofDeclaration (d : Declaration) (w : Workspace) :
    (ofDeclaration d w).value = (attempt d w).value := by
  rw [ofDeclaration, within, Logged.value_within, value_bind]
  generalize (attempt d w).value = result
  obtain ⟨r, w'⟩ := result
  cases r <;> rfl

theorem value_attempt {decl : Declaration} {u : Dispatcher}
    (hu : (Dispatcher.ofDeclaration decl).value = .ok u) (d : OutputDirectory) (fs : Files) :
    (attempt decl ⟨fs, .directory d⟩).value =
      let unit := CodeUnit.ofDispatcher u
      let emitted := (d.emit fs unit (Dependencies.on u.origin)).value
      ((emitted.1.mapError (.emission decl.name.text unit.name)).map fun _ => unit,
        ⟨emitted.2.2, .directory emitted.2.1⟩) := by
  simp only [attempt, bind, StateT.bind, liftM, monadLift, MonadLift.monadLift, StateT.lift, pure,
    hu, Workspace.emit]
  generalize d.emit fs (CodeUnit.ofDispatcher u) (Dependencies.on u.origin) = result
  obtain ⟨⟨outcome, d', fs'⟩, outputs⟩ := result
  cases outcome <;> rfl

theorem stays_attempt (d : OutputDirectory) (fs : Files) {decl : Declaration}
    (h : decl.IsPlaced) :
    Stays d.path fs (attempt decl ⟨fs, .directory d⟩).value.1
      (attempt decl ⟨fs, .directory d⟩).value.2 := by
  cases hu : (Dispatcher.ofDeclaration decl).value with
  | error f =>
    rw [attempt_of_error _ hu]
    exact ⟨⟨d, rfl, rfl⟩, .refl _ _, fun u hu => nomatch hu⟩
  | ok u =>
    obtain ⟨-, token, -, rfl⟩ := (Dispatcher.ofDeclaration_eq_ok_iff decl u).mp hu
    have hnames : ∀ n ∈ (CodeUnit.ofDispatcher (.ofSound decl token)).fileNames,
        Path.IsOrdinary n :=
      CodeUnit.isOrdinary_of_mem_fileNames h.namespace_ h.name
    obtain ⟨hpath, hconfines⟩ :=
      OutputDirectory.confines_emit d fs (Dependencies.on decl.origin) hnames
    rw [value_attempt hu]
    refine ⟨⟨_, rfl, hpath⟩, hconfines, fun unit hunit => ?_⟩
    dsimp only at hunit
    revert hunit
    cases (d.emit fs (CodeUnit.ofDispatcher (.ofSound decl token))
      (Dependencies.on (Dispatcher.ofSound decl token).origin)).value.1 with
    | error cause => exact fun hunit => nomatch hunit
    | ok _ =>
      rintro ⟨⟩
      exact hnames

theorem stays_ofFound (d : OutputDirectory) (fs : Files) {found : Except Fault Declaration}
    (h : ∀ decl, found = .ok decl → decl.IsPlaced) :
    Stays d.path fs (ofFound found ⟨fs, .directory d⟩).value.1
      (ofFound found ⟨fs, .directory d⟩).value.2 := by
  cases found with
  | error f => exact ⟨⟨d, rfl, rfl⟩, .refl _ _, fun u hu => nomatch hu⟩
  | ok decl =>
    rw [ofFound, value_ofDeclaration]
    exact stays_attempt d fs (h decl rfl)

/-- Several bots stay below the output directory if each of them does. -/
theorem stays_mapM (founds : List (Except Fault Declaration)) (d : OutputDirectory) (fs : Files)
    (h : ∀ decl, .ok decl ∈ founds → decl.IsPlaced) :
    OutputDirectory.Confines d.path fs (founds.mapM ofFound ⟨fs, .directory d⟩).value.2.files ∧
      ∀ u, .ok u ∈ (founds.mapM ofFound ⟨fs, .directory d⟩).value.1 →
        ∀ n ∈ u.fileNames, Path.IsOrdinary n := by
  induction founds generalizing d fs with
  | nil => exact ⟨.refl _ _, fun u hu => absurd hu List.not_mem_nil⟩
  | cons found rest ih =>
    have hfirst := stays_ofFound d fs fun decl (hdecl : found = .ok decl) =>
      h decl (hdecl ▸ List.mem_cons_self)
    rw [run_mapM_cons, Logged.value_bind, Logged.value_bind, Logged.value_pure]
    generalize (ofFound found ⟨fs, .directory d⟩).value = first at hfirst ⊢
    obtain ⟨r, fs', sink⟩ := first
    obtain ⟨⟨d', hsink, hpath⟩, hfiles, hplaced⟩ := hfirst
    dsimp only at hsink hfiles hplaced ⊢
    subst hsink
    obtain ⟨hrest, hunits⟩ := ih d' fs' fun decl hdecl => h decl (List.mem_cons_of_mem _ hdecl)
    rw [hpath] at hrest
    refine ⟨hfiles.trans hrest, fun u hu => ?_⟩
    rcases List.mem_cons.mp hu with hu | hu
    · exact hplaced u hu.symm
    · exact hunits u hu

/-- Units stay below the output directory. For a source whose path is plain: the path of each unit
that is emitted goes from name to name, and a file that is not below the output directory is what it
was. -/
theorem ofFile_confined (path : String) (hpath : isPlain path = true) (d : OutputDirectory)
    (fs : Files) :
    let run := (ofFile path ⟨fs, .directory d⟩).value
    (∀ results u, run.1 = .ok results → .ok u ∈ results →
      ∀ s ∈ Path.steps u.relativePath, ∃ n, s = .name n) ∧
    ∀ (q : Place) (n : Node), n ≠ .directory →
      (run.2.files.get? q = some n ↔ fs.get? q = some n) ∨
        ∃ o ns, ns ≠ [] ∧ run.2.files.resolve (Path.route d.path) = .ok o ∧ q = o ++ ns := by
  cases hload : load fs path with
  | error e =>
    rw [ofFile_of_error _ hload]
    exact ⟨fun results u h => (nomatch h), fun q n hn => .inl Iff.rfl⟩
  | ok f =>
    obtain ⟨hconfines, hunits⟩ := stays_mapM
      (Declaration.ofFile f (ofPath path) (some path)).value d fs
      fun decl hdecl => isPlaced_of_mem_ofFile hpath hload hdecl
    rw [ofFile_of_ok _ hload, Logged.value_within, Logged.value_bind, Logged.value_bind,
      Logged.value_pure]
    refine ⟨?_, hconfines.below⟩
    rintro results u ⟨⟩ hu s hs
    rw [CodeUnit.steps_relativePath (hunits u hu)] at hs
    obtain ⟨n, -, rfl⟩ := List.mem_map.mp hs
    exact ⟨n, rfl⟩

/-- Points within a name do no harm. -/
theorem ofFile_confined_dotted :
    let fs : Files := { entries := [(["src"], .directory),
      (["src", "a.b..rs"], .text "#[bot(token = \"t\")] impl Greeter \x7b \x7d")] }
    isPlain "./src/a.b..rs" = true ∧
      ∀ results u, (ofFile "./src/a.b..rs" ⟨fs, .directory { path := "out" }⟩).value.1 = .ok results →
        .ok u ∈ results → ∀ s ∈ Path.steps u.relativePath, ∃ n, s = .name n :=
  ⟨by decide, (ofFile_confined "./src/a.b..rs" (by decide) { path := "out" } _).1⟩

/-- A source named `...rs` is the module `..`: its bot is emitted beside the output directory, over
whatever file was there. -/
theorem ofFile_escapes :
    let text := "#[bot(token = \"t\")] impl Greeter \x7b \x7d"
    let fs : Files := { entries := [(["src"], .directory), (["src", "...rs"], .text text),
      (["MagicordGreeter.rs"], .text "kept by hand")] }
    let run := (ofFile "src/...rs" ⟨fs, .directory { path := "out" }⟩).value
    (run.1.toOption.map fun rs => rs.map fun r => r.toOption.map fun u => Path.steps u.relativePath) =
        some [some [.up, .name "MagicordGreeter.rs"]] ∧
      fs.get? ["MagicordGreeter.rs"] = some (.text "kept by hand") ∧
      run.2.files.get? ["MagicordGreeter.rs"] ≠ some (.text "kept by hand") := by
  decide +kernel

end Generation

end CommandBot
