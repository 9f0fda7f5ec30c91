import CommandBot.Proofs.FileDeclarations
import CommandBot.Proofs.Placement

/-
  From a source's place to the place of its bots' units. A file below the last `src` of its path
  holds the module that its directories and its own name spell, whatever leads there
  (`ofPath_filePath`, `ofPath_directoryPath`); the namespace of a unit, cut at its colons again, is
  the modules that it was joined from (`segments_joined`). `ofPath_layout`: the file of a unit
  stands in a directory for each module around its bot, and no two units share a file unless
  namespace and name are the same.
-/

namespace CommandBot

namespace Namespace

/-! ## Names on a path -/

theorem names_append (p q : String) : names (p ++ "/" ++ q) = names p ++ names q := by
  show (Path.parts (p ++ "/" ++ q)).filter _ = _
  rw [Path.parts_append, List.filter_append]
  rfl

theorem names_of_isOrdinary {n : String} (h : Path.IsOrdinary n) : names n = [n] := by
  show (Path.parts n).filter _ = _
  rw [Path.parts_of_not_mem h.2.2.2]
  simp [h.1, h.2.1, h.2.2.1]

/-- Below a directory come the names that lead to it, and then those below it. -/
theorem names_push (p : String) {q : String} (hq : Path.isRooted q = false) :
    names (Path.push p q) = names p ++ names q := by
  unfold Path.push
  rw [hq, Bool.false_or]
  split
  · rename_i hempty
    rw [String.isEmpty_iff.mp hempty]
    rfl
  split
  · rename_i hslash
    obtain ⟨cs, hcs⟩ := List.getLast?_eq_some_iff.mp hslash
    have hp : p = String.ofList cs ++ "/" := by
      rw [← String.toList_inj, String.toList_append, String.toList_ofList, hcs]
      rfl
    have hnames : names p = names (String.ofList cs) := by
      rw [hp, ← String.append_empty (s := String.ofList cs ++ "/"), names_append]
      exact List.append_nil _
    rw [hnames, hp, names_append]
  · exact names_append p q

theorem names_intercalate {ns : List String} (h : ∀ n ∈ ns, Path.IsOrdinary n) :
    names ("/".intercalate ns) = ns := by
  induction ns with
  | nil => rfl
  | cons n ns ih =>
    rw [List.forall_mem_cons] at h
    cases ns with
    | nil => rw [String.intercalate_singleton, names_of_isOrdinary h.1]
    | cons n' ns =>
      rw [String.intercalate_cons_cons, names_append, names_of_isOrdinary h.1, ih h.2]
      rfl

theorem intercalate_append_text (sep : String) (ns : List String) (n s : String) :
    sep.intercalate (ns ++ [n]) ++ s = sep.intercalate (ns ++ [n ++ s]) := by
  by_cases hns : ns = []
  · subst hns
    rw [List.nil_append, List.nil_append, String.intercalate_singleton,
      String.intercalate_singleton]
  · rw [String.intercalate_append_of_ne_nil hns (List.cons_ne_nil _ _),
      String.intercalate_append_of_ne_nil hns (List.cons_ne_nil _ _), String.intercalate_singleton,
      String.intercalate_singleton, String.append_assoc]

/-! ## Modules of source files -/

/-- The modules around and in a file below `src` that is named for its module. -/
structure IsSourceModule (ms : List String) : Prop where
  ne_nil : ms ≠ []
  word : ∀ m ∈ ms, Piece.isWord m.toList = true
  not_src : "src" ∉ ms
  not_bin : ms.head? ≠ some "bin"
  not_root : ∀ m ∈ ms.getLast?, m ≠ "lib" ∧ m ≠ "main" ∧ m ≠ "mod"

/-- The file that is named for its module, for a crate below the directory `p`. -/
def filePath (p : String) (ms : List String) : String :=
  Path.push p ("src/" ++ "/".intercalate ms ++ ".rs")

/-- The file that stands for the directory of its module. -/
def directoryPath (p : String) (ms : List String) : String :=
  Path.push p ("src/" ++ "/".intercalate ms ++ "/mod.rs")

theorem isOrdinary_of_isWord {m : String} (h : Piece.isWord m.toList = true) :
    Path.IsOrdinary m := by
  have hdot : '.' ∉ m.toList := not_mem_of_isWord h (by decide) (by decide)
  refine ⟨?_, ?_, ?_, not_mem_of_isWord h (by decide) (by decide)⟩
  · rintro rfl
    cases h
  · rintro rfl
    exact hdot (by decide)
  · rintro rfl
    exact hdot (by decide)

theorem stem_of_isWord {m : String} (h : Piece.isWord m.toList = true) : stem m = m := by
  unfold stem
  split
  · rename_i rest heq
    have hdot : '.' ∈ m.toList := by
      rw [← List.mem_reverse, heq]
      simp
    exact absurd hdot (not_mem_of_isWord h (by decide) (by decide))
  · rfl

theorem stem_append (m : String) : stem (m ++ ".rs") = m := by
  have hreverse : (m ++ ".rs").toList.reverse = 's' :: 'r' :: '.' :: m.toList.reverse := by
    rw [String.toList_append, List.reverse_append]
    rfl
  rw [stem, hreverse]
  simp

/-- What counts is what follows the last `src`. -/
theorem belowSource_append (ns : List String) {below : List String} (h : "src" ∉ below) :
    belowSource (ns ++ "src" :: below) = below := by
  have hmem : (ns ++ "src" :: below).contains "src" = true := by simp
  have hpass : ∀ n ∈ below.reverse, (n != "src") = true := by
    intro n hn
    rw [bne_iff_ne]
    rintro rfl
    exact h (List.mem_reverse.mp hn)
  rw [belowSource, if_pos hmem, List.reverse_append, List.reverse_cons, List.append_assoc,
    List.takeWhile_append_of_pos hpass]
  simp

/-- The module of a file with these names below its last `src`. -/
theorem ofPath_push (p : String) {below : List String} (hnames : ∀ n ∈ below, Path.IsOrdinary n)
    (hne : below ≠ []) (hsrc : "src" ∉ below) :
    ofPath (Path.push p ("src/" ++ "/".intercalate below)) = "::".intercalate (segments below) := by
  have htext : "src/" ++ "/".intercalate below = "/".intercalate ("src" :: below) := by
    rw [String.intercalate_cons_of_ne_nil hne]
    rfl
  have hall : ∀ n ∈ "src" :: below, Path.IsOrdinary n :=
    List.forall_mem_cons.mpr ⟨by decide, hnames⟩
  have hrooted : Path.isRooted ("src/" ++ "/".intercalate below) = false := by
    rw [Path.isRooted_append (by decide)]
    decide
  rw [ofPath, names_push p hrooted, htext, names_intercalate hall, belowSource_append _ hsrc]

namespace IsSourceModule

variable {ms : List String}

theorem exists_concat (h : IsSourceModule ms) : ∃ init m, ms = init ++ [m] :=
  ⟨ms.dropLast, ms.getLast h.ne_nil, (List.dropLast_append_getLast h.ne_nil).symm⟩

theorem isOrdinary (h : IsSourceModule ms) : ∀ m ∈ ms, Path.IsOrdinary m :=
  fun m hm => isOrdinary_of_isWord (h.word m hm)

theorem map_stem (h : IsSourceModule ms) : ms.map stem = ms := by
  conv_rhs => rw [← List.map_id ms]
  exact List.map_congr_left fun m hm => stem_of_isWord (h.word m hm)

/-- A name with the ending of a source file is none of the names that count. -/
theorem ne_of_no_dot {n : String} (hn : '.' ∉ n.toList) (m : String) : m ++ ".rs" ≠ n := by
  rintro rfl
  exact hn (by simp)

theorem isRoot_eq_false {m : String} (h : m ≠ "lib" ∧ m ≠ "main" ∧ m ≠ "mod") :
    isRoot m = false := by
  simp [isRoot, h]

theorem ofPath_filePath (h : IsSourceModule ms) (p : String) :
    ofPath (filePath p ms) = "::".intercalate ms := by
  obtain ⟨init, m, rfl⟩ := h.exists_concat
  have hslash : '/' ∉ m.toList := (h.isOrdinary m (by simp)).2.2.2
  have hfile : Path.IsOrdinary (m ++ ".rs") :=
    CodeUnit.isOrdinary_fileName (u := ⟨"", m, []⟩) hslash
  have hbelow : ∀ n ∈ init ++ [m ++ ".rs"], Path.IsOrdinary n := by
    rw [List.forall_mem_append, List.forall_mem_singleton]
    exact ⟨fun n hn => h.isOrdinary n (List.mem_append_left _ hn), hfile⟩
  have hsrc : "src" ∉ init ++ [m ++ ".rs"] := by
    rw [List.mem_append, List.mem_singleton, not_or]
    exact ⟨fun hmem => h.not_src (List.mem_append_left _ hmem), (ne_of_no_dot (by decide) m).symm⟩
  have hbin : (init ++ [m ++ ".rs"]).head? ≠ some "bin" := by
    have hhead := h.not_bin
    cases init with
    | nil => exact fun heq => ne_of_no_dot (by decide) m (Option.some.inj heq)
    | cons n init => exact hhead
  have hstems : (init ++ [m ++ ".rs"]).map stem = init ++ [m] := by
    have hmap := h.map_stem
    rw [List.map_append] at hmap ⊢
    rw [(List.append_inj' hmap rfl).1, List.map_singleton, stem_append]
  have hroot : isRoot m = false := isRoot_eq_false (h.not_root m (by simp))
  have hsegments : segments (init ++ [m ++ ".rs"]) = init ++ [m] := by
    rw [segments, if_neg hbin, hstems]
    simp [hroot]
  rw [filePath, String.append_assoc, intercalate_append_text,
    ofPath_push p hbelow (by simp) hsrc, hsegments]

theorem ofPath_directoryPath (h : IsSourceModule ms) (p : String) :
    ofPath (directoryPath p ms) = "::".intercalate ms := by
  have htext : "/".intercalate ms ++ "/mod.rs" = "/".intercalate (ms ++ ["mod.rs"]) := by
    rw [String.intercalate_append_of_ne_nil h.ne_nil (List.cons_ne_nil _ _),
      String.intercalate_singleton, String.append_assoc]
    rfl
  have hbelow : ∀ n ∈ ms ++ ["mod.rs"], Path.IsOrdinary n := by
    rw [List.forall_mem_append, List.forall_mem_singleton]
    exact ⟨h.isOrdinary, by decide⟩
  have hsrc : "src" ∉ ms ++ ["mod.rs"] := by
    rw [List.mem_append, not_or]
    exact ⟨h.not_src, by decide⟩
  have hbin : (ms ++ ["mod.rs"]).head? ≠ some "bin" := by
    rw [List.head?_append_of_ne_nil _ h.ne_nil]
    exact h.not_bin
  have hsegments : segments (ms ++ ["mod.rs"]) = ms := by
    rw [segments, if_neg hbin, List.map_append, h.map_stem, List.map_singleton]
    have hstem : stem "mod.rs" = "mod" := by decide
    rw [hstem]
    simp [isRoot]
  rw [directoryPath, String.append_assoc, htext, ofPath_push p hbelow (by simp) hsrc, hsegments]

end IsSourceModule

end Namespace

/-! ## Files of units -/

namespace CodeUnit

theorem splitColons_of_not_mem {cs : List Char} (h : ':' ∉ cs) : splitColons cs = [cs] := by
  induction cs with
  | nil => rfl
  | cons c cs ih =>
    rw [List.mem_cons, not_or] at h
    rw [splitColons, ih h.2]
    exact fun rest hc _ => h.1 hc.symm

theorem splitColons_append {cs : List Char} (h : ':' ∉ cs) (rest : List Char) :
    splitColons (cs ++ ':' :: ':' :: rest) = cs :: splitColons rest := by
  induction cs with
  | nil => rw [List.nil_append, splitColons]
  | cons c cs ih =>
    rw [List.mem_cons, not_or] at h
    rw [List.cons_append, splitColons, ih h.2]
    exact fun rest hc _ => h.1 hc.symm

/-- Names without colons are cut apart where they were joined. -/
theorem splitColons_intercalate {ts : List (List Char)} (hne : ts ≠ []) (h : ∀ t ∈ ts, ':' ∉ t) :
    splitColons ([':', ':'].intercalate ts) = ts := by
  induction ts with
  | nil => exact absurd rfl hne
  | cons t ts ih =>
    rw [List.forall_mem_cons] at h
    cases ts with
    | nil => rw [List.intercalate_singleton, splitColons_of_not_mem h.1]
    | cons t' ts =>
      rw [List.intercalate_cons_cons, List.append_assoc]
      show splitColons (t ++ ':' :: ':' :: [':', ':'].intercalate (t' :: ts)) = _
      rw [splitColons_append h.1, ih (List.cons_ne_nil _ _) h.2]

/-- The modules of a namespace are those that it was joined from. -/
theorem segments_joined {ms : List String} (hne : ms ≠ [])
    (h : ∀ m ∈ ms, Piece.isWord m.toList = true) : segments ("::".intercalate ms) = ms := by
  have hcolon : ∀ t ∈ ms.map String.toList, ':' ∉ t := by
    rw [List.forall_mem_map]
    exact fun m hm => Namespace.not_mem_of_isWord (h m hm) (by decide) (by decide)
  have hsplit : splitColons ("::".intercalate ms).toList = ms.map String.toList := by
    rw [String.toList_intercalate]
    exact splitColons_intercalate (by simpa using hne) hcolon
  have hback : (ms.map String.toList).map String.ofList = ms := by
    rw [List.map_map]
    simp [Function.comp_def]
  rw [segments, hsplit, hback, List.filter_eq_self]
  intro m hm
  rw [bne_iff_ne]
  exact (Namespace.isOrdinary_of_isWord (h m hm)).1

theorem join_eq_intercalate {ns : List String} (h : ∀ n ∈ ns, Path.IsOrdinary n) :
    Path.join ns = "/".intercalate ns := by
  induction ns using List.reverseRecOn with
  | nil => rfl
  | append_singleton ns n ih =>
    rw [List.forall_mem_append, List.forall_mem_singleton] at h
    have hjoin : Path.join (ns ++ [n]) = Path.push (Path.join ns) n := by
      rw [Path.join, List.foldl_append]
      rfl
    by_cases hns : ns = []
    · subst hns
      rw [hjoin, List.nil_append, String.intercalate_singleton]
      exact Path.push_empty n
    · rw [hjoin, Path.push_of_isWay (Path.isWay_join hns h.1) h.2, ih h.1,
        String.intercalate_append_of_ne_nil hns (List.cons_ne_nil _ _),
        String.intercalate_singleton]

/-- A unit for a bot in some modules that are written out in a file, given the file's namespace. -/
structure StandsIn (u : CodeUnit) (fileNamespace : String) (inner : List String) : Prop where
  word : ∀ m ∈ inner, Piece.isWord m.toList = true
  namespace_eq : u.namespace_ = inner.foldl Declaration.joinNamespace fileNamespace
  name : Piece.isWord u.name.toList = true

namespace StandsIn

variable {u v : CodeUnit} {ms inner : List String}

/-- The namespace is joined from the modules of the file and those in it. -/
theorem namespace_eq_joined (h : u.StandsIn ("::".intercalate ms) inner)
    (hms : Namespace.IsSourceModule ms) : u.namespace_ = "::".intercalate (ms ++ inner) := by
  have hinner : "" ∉ inner := fun hmem => absurd (h.word _ hmem) nofun
  have hfile : ("::".intercalate ms).isEmpty = false := by
    rw [String.isEmpty_eq_false_iff]
    intro hempty
    have hsegments := segments_joined hms.ne_nil hms.word
    rw [hempty] at hsegments
    exact hms.ne_nil hsegments.symm
  rw [h.namespace_eq, Namespace.foldl_joinNamespace hinner, Namespace.extended, hfile]
  show "::".intercalate ("::".intercalate ms :: inner) = _
  by_cases hnil : inner = []
  · rw [hnil, String.intercalate_singleton, List.append_nil]
  · rw [String.intercalate_cons_of_ne_nil hnil,
      String.intercalate_append_of_ne_nil hms.ne_nil hnil]

theorem fileNames_eq (h : u.StandsIn ("::".intercalate ms) inner)
    (hms : Namespace.IsSourceModule ms) : u.fileNames = ms ++ inner ++ [u.name ++ ".rs"] := by
  have hword : ∀ m ∈ ms ++ inner, Piece.isWord m.toList = true :=
    List.forall_mem_append.mpr ⟨hms.word, h.word⟩
  rw [fileNames, h.namespace_eq_joined hms, segments_joined (by simp [hms.ne_nil]) hword]
  rfl

theorem isOrdinary_fileNames (h : u.StandsIn ("::".intercalate ms) inner)
    (hms : Namespace.IsSourceModule ms) : ∀ n ∈ u.fileNames, Path.IsOrdinary n := by
  rw [h.fileNames_eq hms, List.forall_mem_append, List.forall_mem_append, List.forall_mem_singleton]
  exact ⟨⟨hms.isOrdinary, fun m hm => Namespace.isOrdinary_of_isWord (h.word m hm)⟩,
    isOrdinary_fileName (Namespace.isOrdinary_of_isWord h.name).2.2.2⟩

/-- The file says where the bot stands: its directories are the modules of the namespace. -/
theorem steps_eq_iff {ms' inner' : List String} (hu : u.StandsIn ("::".intercalate ms) inner)
    (hms : Namespace.IsSourceModule ms) (hv : v.StandsIn ("::".intercalate ms') inner')
    (hms' : Namespace.IsSourceModule ms') :
    Path.steps u.relativePath = Path.steps v.relativePath ↔
      u.namespace_ = v.namespace_ ∧ u.name = v.name := by
  rw [steps_relativePath (hu.isOrdinary_fileNames hms),
    steps_relativePath (hv.isOrdinary_fileNames hms'),
    (List.map_injective_iff.mpr fun _ _ => Step.name.inj).eq_iff, hu.fileNames_eq hms,
    hv.fileNames_eq hms']
  constructor
  · intro heq
    obtain ⟨hmodules, hfile⟩ := List.append_inj' heq rfl
    refine ⟨?_, (String.append_left_inj ".rs").mp (List.cons.inj hfile).1⟩
    rw [hu.namespace_eq_joined hms, hv.namespace_eq_joined hms', hmodules]
  · rintro ⟨hnamespace, hname⟩
    have hfiles : u.fileNames = v.fileNames := by
      rw [fileNames, fileNames, fileName, fileName, hnamespace, hname]
    rw [← hu.fileNames_eq hms, ← hv.fileNames_eq hms', hfiles]

end StandsIn

end CodeUnit

open Namespace in
/-- Where a source stands says which module it holds, and the modules around a bot say where its
unit goes: below a directory for each of them, where it meets no unit of another namespace or name.
-/
theorem Namespace.ofPath_layout (p : String) {ms : List String} (h : IsSourceModule ms) :
    ofPath (filePath p ms) = "::".intercalate ms ∧
      ofPath (directoryPath p ms) = "::".intercalate ms ∧
      ∀ (u : CodeUnit) (inner : List String), u.StandsIn (ofPath (filePath p ms)) inner →
        u.relativePath = "/".intercalate (ms ++ inner ++ [u.name ++ ".rs"]) ∧
        ∀ (p' : String) (ms' : List String), IsSourceModule ms' →
          ∀ (v : CodeUnit) (inner' : List String), v.StandsIn (ofPath (filePath p' ms')) inner' →
            (Path.steps u.relativePath = Path.steps v.relativePath ↔
              u.namespace_ = v.namespace_ ∧ u.name = v.name) := by
  refine ⟨h.ofPath_filePath p, h.ofPath_directoryPath p, fun u inner hu => ?_⟩
  rw [h.ofPath_filePath] at hu
  refine ⟨?_, fun p' ms' h' v inner' hv => ?_⟩
  · rw [CodeUnit.relativePath_eq_join, CodeUnit.join_eq_intercalate (hu.isOrdinary_fileNames h),
      hu.fileNames_eq h]
  · rw [h'.ofPath_filePath] at hv
    exact hu.steps_eq_iff h hv h'

/-- Two bots in one module, which is written out in a file of its parent or in one further up. Only
their names keep their units apart. -/
theorem Namespace.ofPath_layout_greeter :
    let u : CodeUnit := ⟨"bots::greeter::r#type", "MagicordGreeter", []⟩
    let v : CodeUnit := ⟨"bots::greeter::r#type", "MagicordGuest", []⟩
    IsSourceModule ["bots", "greeter"] ∧ IsSourceModule ["bots"] ∧
      u.StandsIn (ofPath (filePath "/src/../app" ["bots", "greeter"])) ["r#type"] ∧
      v.StandsIn (ofPath (filePath "" ["bots"])) ["greeter", "r#type"] ∧
      ofPath (directoryPath "/src/../app" ["bots", "greeter"]) = "bots::greeter" ∧
      u.relativePath = "bots/greeter/r#type/MagicordGreeter.rs" ∧
      Path.steps u.relativePath ≠ Path.steps v.relativePath := by
  intro u v
  have hms : IsSourceModule ["bots", "greeter"] :=
    ⟨by decide, by decide, by decide, by decide, by simp⟩
  have hms' : IsSourceModule ["bots"] := ⟨by decide, by decide, by decide, by decide, by simp⟩
  have hu : u.StandsIn (ofPath (filePath "/src/../app" ["bots", "greeter"])) ["r#type"] :=
    ⟨by decide, by rw [hms.ofPath_filePath]; rfl, by decide⟩
  have hv : v.StandsIn (ofPath (filePath "" ["bots"])) ["greeter", "r#type"] :=
    ⟨by decide, by rw [hms'.ofPath_filePath]; rfl, by decide⟩
  obtain ⟨-, hdirectory, hfiles⟩ := ofPath_layout "/src/../app" hms
  obtain ⟨hpath, hshared⟩ := hfiles u _ hu
  refine ⟨hms, hms', hu, hv, hdirectory, hpath, ?_⟩
  rw [ne_eq, hshared "" _ hms' v _ hv]
  decide

end CommandBot
