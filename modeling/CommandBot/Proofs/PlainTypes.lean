import CommandBot.Proofs.ReadingCode

/-
  Types with no code in them: paths with generic arguments, references, tuples, slices, and types
  known by a trait. `PlainType` builds them from the inside out, and each is read as it prints, before
  whatever may stand behind a type (`PlainType.readsAsType`).
-/

namespace CommandBot.Grammar

open Template TokenTree

/-! ## Plain types -/

/-- A lifetime, as it prints. -/
def isLifetime : List TokenTree → Bool
  | [.mark '\'' .joint _, .word _] => true
  | _ => false

theorem exists_of_isLifetime {a : List TokenTree} (h : isLifetime a = true) :
    ∃ s w, a = [.mark '\'' .joint s, .word w] := by
  unfold isLifetime at h
  split at h
  · exact ⟨_, _, rfl⟩
  · cases h

/-- Parts with a comma between any two. -/
def separated : List (List TokenTree) → List TokenTree
  | [] => []
  | [part] => part
  | part :: further :: rest => part ++ (comma ++ separated (further :: rest))

/-- A segment of a path, with its generic arguments if it has any. -/
structure PlainSegment where
  name : Word
  arguments : List (List TokenTree)
  isSegment : segmentWord (.word name) = true
  bare_of_root : isOneOf ["super", "self", "crate", "try"] (.word name) = true → arguments = []

def PlainSegment.argumentTrees (s : PlainSegment) : List TokenTree :=
  if s.arguments.isEmpty then [] else angles (separated s.arguments)

def PlainSegment.trees (s : PlainSegment) : List TokenTree := .word s.name :: s.argumentTrees

structure PlainPath where
  fromRoot : Bool
  first : PlainSegment
  further : List PlainSegment

namespace PlainPath

/-- The generic arguments of all segments. -/
def arguments (p : PlainPath) : List (List TokenTree) :=
  (p.first :: p.further).flatMap PlainSegment.arguments

def furtherTrees (ss : List PlainSegment) : List TokenTree := ss.flatMap fun s => pathMark ++ s.trees

def trees (p : PlainPath) : List TokenTree :=
  (if p.fromRoot then pathMark else []) ++ (p.first.trees ++ furtherTrees p.further)

end PlainPath

/-- A type that is made of names. Behind `impl` and `dyn` stands one trait: with several of them it
would depend on the place whether they are read. -/
inductive PlainType : List TokenTree → Prop
  | path (p : PlainPath) (h : ∀ a ∈ p.arguments, isLifetime a = false → PlainType a) :
      PlainType p.trees
  | bounded (w : String) (hw : w = "impl" ∨ w = "dyn") (p : PlainPath)
      (h : ∀ a ∈ p.arguments, isLifetime a = false → PlainType a) : PlainType (words [w] ++ p.trees)
  | reference (lifetime mutability ts : List TokenTree)
      (hlifetime : lifetime = [] ∨ isLifetime lifetime = true)
      (hmutability : mutability = [] ∨ mutability = words ["mut"]) (h : PlainType ts) :
      PlainType (sign '&' ++ (lifetime ++ (mutability ++ ts)))
  | tuple (parts : List (List TokenTree)) (s : Span) (h : ∀ a ∈ parts, PlainType a) :
      PlainType [.group .parenthesis (separated parts) s]
  | slice (ts : List TokenTree) (s : Span) (h : PlainType ts) : PlainType [.group .bracket ts s]

/-- A name alone. -/
theorem PlainType.name {w : Word} (hw : isName (.word w) = true) : PlainType [.word w] :=
  .path ⟨false, ⟨w, [], segmentWord_of_isName hw, fun _ => rfl⟩, []⟩ fun a ha => by cases ha

/-! ## How they begin -/

/-- A token that a plain type may begin with. -/
def beginsType : TokenTree → Bool
  | .word w => segmentWord (.word w) || isOneOf ["impl", "dyn"] (.word w)
  | .mark c _ _ => c = ':' || c = '&'
  | .group d _ _ => d = .parenthesis || d = .bracket
  | .literal _ _ => false

/-- A segment's word is no word that stands for something else. -/
theorem not_isOneOf_of_segmentWord {ss : List String} {w : Word} (hss : ∀ s ∈ ss, s ∈ keywords)
    (hroots : ∀ s ∈ ss, s ∉ ["super", "self", "Self", "crate", "try"])
    (hw : segmentWord (.word w) = true) : isOneOf ss (.word w) = false := by
  rw [isOneOf, List.contains_eq_mem, decide_eq_false_iff_not]
  intro hmem
  rw [segmentWord, Bool.or_eq_true, Bool.not_eq_true', List.contains_eq_mem, List.contains_eq_mem,
    decide_eq_false_iff_not, decide_eq_true_iff] at hw
  rcases hw with hname | hroot
  · exact hname (hss _ hmem)
  · exact hroots _ hmem hroot

theorem isWord_eq_isOneOf (s : String) (t : TokenTree) : isWord s t = isOneOf [s] t := by
  cases t with
  | word w => rw [isWord, isOneOf, List.contains_cons, List.contains_nil, Bool.or_false]
  | mark c spacing p => rfl
  | literal text p => rfl
  | group d content p => rfl

/-- A path begins with the word of a segment or with the mark before one. -/
theorem PlainPath.cases_trees (p : PlainPath) :
    (∃ w rest, segmentWord (.word w) = true ∧ p.trees = .word w :: rest) ∨
      ∃ rest, p.trees = pathMark ++ rest := by
  obtain ⟨fromRoot, first, further⟩ := p
  cases fromRoot with
  | true => exact .inr ⟨_, rfl⟩
  | false => exact .inl ⟨_, _, first.isSegment, rfl⟩

theorem PlainType.exists_eq_cons {ts : List TokenTree} (h : PlainType ts) :
    ∃ t rest, ts = t :: rest ∧ beginsType t = true := by
  cases h with
  | path p h =>
    rcases p.cases_trees with ⟨w, rest, hw, htrees⟩ | ⟨rest, htrees⟩
    · exact ⟨_, _, htrees, by rw [beginsType, hw, Bool.true_or]⟩
    · exact ⟨_, _, htrees, rfl⟩
  | bounded w hw p h =>
    refine ⟨_, _, rfl, ?_⟩
    rcases hw with rfl | rfl <;> decide
  | reference lifetime mutability ts hlifetime hmutability h => exact ⟨_, _, rfl, rfl⟩
  | tuple parts s h => exact ⟨_, _, rfl, rfl⟩
  | slice ts s h => exact ⟨_, _, rfl, rfl⟩

/-- What such a token begins is neither a lifetime, nor a constant, nor the end of some arguments. -/
theorem aheads_of_beginsType {t : TokenTree} (h : beginsType t = true) (z : List TokenTree) :
    lifetimeAhead (t :: z) = false ∧ wordAhead "mut" (t :: z) = false ∧
      constantAhead (t :: z) = false ∧ operatorAhead ">" (t :: z) = false ∧
      operatorAhead "?" (t :: z) = false := by
  cases t with
  | literal text s => cases h
  | group d content s => cases d <;> first | exact ⟨rfl, rfl, rfl, rfl, rfl⟩ | cases h
  | mark c spacing s =>
    have hc : c = ':' ∨ c = '&' := by simpa [beginsType] using h
    rcases hc with rfl | rfl <;> cases spacing <;> exact ⟨rfl, rfl, rfl, rfl, rfl⟩
  | word w =>
    have hw : isWord "mut" (.word w) = false ∧ isOneOf ["true", "false"] (.word w) = false := by
      rw [beginsType, Bool.or_eq_true] at h
      rcases h with hsegment | hword
      · rw [isWord_eq_isOneOf]
        exact ⟨not_isOneOf_of_segmentWord (by decide) (by decide) hsegment,
          not_isOneOf_of_segmentWord (by decide) (by decide) hsegment⟩
      · have htext : w.text = "impl" ∨ w.text = "dyn" := by simpa [isOneOf] using hword
        rcases htext with htext | htext <;> simp [isWord, isOneOf, htext]
    have hliteral : literalAhead (.word w :: z) = false := by simp [literalAhead, isLiteral, hw.2]
    exact ⟨rfl, hw.1, by rw [constantAhead, either, hliteral]; rfl, rfl, rfl⟩

/-! ## Lists -/

section
variable {f : Phrase → Reader} {g : Syntax} {as : List (List TokenTree)} {z : List TokenTree}

theorem read_token {test : TokenTree → Bool} {t : TokenTree} (ht : test t = true) :
    (token test : Syntax).read f (t :: z) = some ([t], z) := by
  simp only [token, Grammar.read, ht, if_true, Option.map_some]

theorem read_cases_not {test : Ahead} {more : List (Ahead × Syntax)} {otherwise : Syntax}
    {ts : List TokenTree} (hts : test ts = false) :
    (cases ((test, g) :: more) otherwise).read f ts = (cases more otherwise).read f ts := by
  rw [cases, Grammar.read, hts]
  rfl

/-- A list without a comma at its end. -/
theorem read_listed_separated (hne : ∀ a ∈ as, a ≠ [])
    (h : ∀ a ∈ as, ∀ z, typeEnd z = true → g.read f (a ++ z) = some (a, z)) :
    (listed g).read f (separated as) = some (separated as, []) := by
  induction as with
  | nil => exact read_whileAhead_nil rfl
  | cons a rest ih =>
    have ha := h a List.mem_cons_self
    have hne' := hne a List.mem_cons_self
    cases rest with
    | nil =>
      have hread := ha [] rfl
      rw [List.append_nil] at hread
      exact read_listed_last hne' hread
    | cons b rest =>
      have hmore := ih (fun c hc => hne c (List.mem_cons_of_mem a hc))
        fun c hc => h c (List.mem_cons_of_mem a hc)
      have hcomma : (Grammar.ifAhead atEnd .nothing (op ",") : Syntax).read f
          (comma ++ separated (b :: rest)) = some (comma, separated (b :: rest)) := rfl
      have hread := read_whileAhead_cons (r := [])
        (never_atEnd_of_ne_nil (List.append_ne_nil_of_left_ne_nil hne' _))
        (read_seq (ha (comma ++ separated (b :: rest)) rfl) hcomma) ?_ hmore rfl
      · rw [List.append_assoc] at hread
        exact hread
      · have hpos : 0 < a.length := List.length_pos_iff.mpr hne'
        simp only [List.length_append]
        omega

/-- What a list of generic arguments needs of each of them. -/
structure ReadsAsArgument (f : Phrase → Reader) (a : List TokenTree) : Prop where
  start : ∀ z, never (either atEnd (operatorAhead ">")) (a ++ z) = true
  read : ∀ z, boundEnd z = true → argument.read f (a ++ z) = some (a, z)

theorem ReadsAsArgument.ne_nil {a : List TokenTree} (h : ReadsAsArgument f a) : a ≠ [] := by
  rintro rfl
  have hstart := h.start []
  cases hstart

theorem read_separated_arguments (h : ∀ a ∈ as, ReadsAsArgument f a) (z : List TokenTree) :
    (Grammar.whileAhead (never (either atEnd (operatorAhead ">")))
      (.seq argument (.ifAhead (operatorAhead ">") .nothing (op ",")))).read f
        (separated as ++ (sign '>' ++ z)) = some (separated as, sign '>' ++ z) := by
  induction as with
  | nil => exact read_whileAhead_nil rfl
  | cons a rest ih =>
    have ha := h a List.mem_cons_self
    have hpos : 0 < a.length := List.length_pos_iff.mpr ha.ne_nil
    cases rest with
    | nil =>
      have hclose : (Grammar.ifAhead (operatorAhead ">") .nothing (op ",") : Syntax).read f
          (sign '>' ++ z) = some ([], sign '>' ++ z) := rfl
      have hread := read_whileAhead_cons (ha.start _) (read_seq (ha.read (sign '>' ++ z) rfl) hclose)
        (by simp only [List.length_append]; omega) (read_whileAhead_nil rfl) rfl
      rw [List.append_nil, List.append_nil] at hread
      exact hread
    | cons b rest =>
      have hmore := ih fun c hc => h c (List.mem_cons_of_mem a hc)
      have hcomma : ∀ ts, (Grammar.ifAhead (operatorAhead ">") .nothing (op ",") : Syntax).read f
          (comma ++ ts) = some (comma, ts) := fun _ => rfl
      have hread := read_whileAhead_cons (ha.start _)
        (read_seq (ha.read (comma ++ (separated (b :: rest) ++ (sign '>' ++ z))) rfl) (hcomma _))
        (by simp only [List.length_append]; omega) hmore rfl
      simp only [separated, List.append_assoc] at hread ⊢
      exact hread

theorem read_arguments (h : ∀ a ∈ as, ReadsAsArgument f a) (z : List TokenTree) :
    Grammar.arguments.read f (angles (separated as) ++ z) = some (angles (separated as), z) := by
  have hread := read_seq (read_sign '<')
    (read_seq (read_separated_arguments h z) (read_sign '>'))
  simp only [angles, List.append_assoc]
  exact hread

end

/-! ## Paths -/

section
variable {n : Nat} {z : List TokenTree}

/-- Neither generic arguments nor those of a function trait are ahead. -/
def plainBehind : Ahead := never (either (either angleAhead turbofishAhead) callAhead)

theorem plainBehind_of_typeEnd (h : typeEnd z = true) : plainBehind z = true := by
  obtain ⟨hangle, hcolons, -, -, hgroup⟩ := not_continues_of_typeEnd h
  simp [plainBehind, never, either, angleAhead, turbofishAhead, callAhead, both, hangle, hcolons,
    hgroup]

theorem plainBehind_pathMark (w : Word) (z : List TokenTree) :
    plainBehind (pathMark ++ .word w :: z) = true := rfl

theorem segment_bare {f : Phrase → Reader} {w : Word} (hw : segmentWord (.word w) = true)
    (hz : plainBehind z = true) : segment.read f (.word w :: z) = some ([.word w], z) := by
  have htoken := read_token (f := f) (z := z) hw
  simp only [plainBehind, never, either, Bool.not_eq_true', Bool.or_eq_false_iff] at hz
  obtain ⟨⟨hangle, hturbofish⟩, hcall⟩ := hz
  have hnone : (cases
      [(either angleAhead turbofishAhead, .seq (maybe "::") (.rule .arguments)),
       (callAhead, callTypes)] .nothing : Syntax).read f z = some ([], z) := by
    rw [read_cases_not (by rw [either, hangle, hturbofish]; rfl), read_cases_not hcall]
    rfl
  rw [segment, Grammar.read]
  split
  · exact htoken
  · exact read_seq htoken hnone

theorem PlainSegment.read (s : PlainSegment)
    (h : ∀ a ∈ s.arguments, ReadsAsArgument (readRule rules n) a) (hz : plainBehind z = true) :
    segment.read (readRule rules (n + 1)) (s.trees ++ z) = some (s.trees, z) := by
  cases hempty : s.arguments.isEmpty with
  | true =>
    have htrees : s.trees = [.word s.name] := by rw [trees, argumentTrees, hempty]; rfl
    rw [htrees]
    exact segment_bare s.isSegment hz
  | false =>
    have htrees : s.trees = .word s.name :: angles (separated s.arguments) := by
      rw [trees, argumentTrees, hempty]
      rfl
    have hroot : rootWord (.word s.name :: (angles (separated s.arguments) ++ z)) = false := by
      rw [← Bool.not_eq_true]
      intro hroot
      rw [s.bare_of_root hroot] at hempty
      cases hempty
    have htoken := read_token (f := readRule rules (n + 1))
      (z := angles (separated s.arguments) ++ z) s.isSegment
    have harguments : (Grammar.rule .arguments : Syntax).read (readRule rules (n + 1))
        (angles (separated s.arguments) ++ z) = some (angles (separated s.arguments), z) :=
      read_arguments h z
    have hangle : either angleAhead turbofishAhead (angles (separated s.arguments) ++ z) = true := by
      simp only [angles, List.append_assoc]
      rfl
    have hnone : (maybe "::" : Syntax).read (readRule rules (n + 1))
        (angles (separated s.arguments) ++ z) = some ([], angles (separated s.arguments) ++ z) := by
      simp only [angles, List.append_assoc]
      rfl
    have hcases : (cases
        [(either angleAhead turbofishAhead, .seq (maybe "::") (.rule .arguments)),
         (callAhead, callTypes)] .nothing : Syntax).read (readRule rules (n + 1))
        (angles (separated s.arguments) ++ z) = some (angles (separated s.arguments), z) := by
      have hread := read_seq hnone harguments
      rw [cases, Grammar.read, if_pos hangle]
      exact hread
    have hread := read_seq htoken hcases
    rw [htrees, List.cons_append, segment, Grammar.read, hroot]
    exact hread

theorem PlainPath.read_furtherTrees {ss : List PlainSegment}
    (h : ∀ s ∈ ss, ∀ a ∈ s.arguments, ReadsAsArgument (readRule rules n) a)
    (hz : typeEnd z = true) :
    (segments segment).read (readRule rules (n + 1)) (furtherTrees ss ++ z) =
      some (furtherTrees ss, z) := by
  obtain ⟨-, hcolons, -, -, -⟩ := not_continues_of_typeEnd hz
  induction ss with
  | nil => exact segments_nil segment hcolons
  | cons s ss ih =>
    have hmore := ih fun t ht => h t (List.mem_cons_of_mem s ht)
    -- behind the segment stands the mark before the next one, or what stands behind the path
    have hbehind : plainBehind (furtherTrees ss ++ z) = true := by
      cases ss with
      | nil => exact plainBehind_of_typeEnd hz
      | cons t ss => exact plainBehind_pathMark _ _
    have hsegment := s.read (h s List.mem_cons_self) hbehind
    have hfurther : (both (operatorAhead "::") (never (third (groupAhead .parenthesis))))
        (pathMark ++ (s.trees ++ (furtherTrees ss ++ z))) = true := rfl
    have hread := read_whileAhead_cons hfurther (read_seq read_pathMark hsegment) ?_ hmore ?_
    · rw [furtherTrees, List.flatMap_cons]
      simp only [List.append_assoc] at hread ⊢
      exact hread
    · simp only [List.length_append, PlainSegment.trees, List.length_cons]
      omega
    · rw [both, hcolons, Bool.false_and]

theorem PlainPath.read (p : PlainPath)
    (h : ∀ a ∈ p.arguments, ReadsAsArgument (readRule rules n) a) (hz : typeEnd z = true) :
    readRule rules (n + 2) .path (p.trees ++ z) = some (p.trees, z) := by
  have hsegments : ∀ s ∈ p.first :: p.further, ∀ a ∈ s.arguments,
      ReadsAsArgument (readRule rules n) a :=
    fun s hs a ha => h a (List.mem_flatMap.mpr ⟨s, hs, ha⟩)
  have hfurther := read_furtherTrees (fun s hs => hsegments s (List.mem_cons_of_mem _ hs)) hz
  have hbehind : plainBehind (furtherTrees p.further ++ z) = true := by
    cases p.further with
    | nil => exact plainBehind_of_typeEnd hz
    | cons t ss => exact plainBehind_pathMark _ _
  have hfirst := p.first.read (hsegments _ List.mem_cons_self) hbehind
  have hroot : (Grammar.ifAhead (operatorAhead "<") qualification (maybe "::")).read
      (readRule rules (n + 1))
      ((if p.fromRoot then pathMark else []) ++ (p.first.trees ++ (furtherTrees p.further ++ z))) =
        some (if p.fromRoot then pathMark else [],
          p.first.trees ++ (furtherTrees p.further ++ z)) := by
    split <;> rfl
  have hread := read_seq hroot (read_seq hfirst hfurther)
  rw [trees]
  simp only [List.append_assoc] at hread ⊢
  exact hread

end

/-! ## Types -/

section
variable {n : Nat} {plus : Bool} {z : List TokenTree}

theorem more_of_typeEnd {f : Phrase → Reader} (hz : typeEnd z = true) :
    (more plus).read f z = some ([], z) := by
  obtain ⟨-, -, -, hplus, -⟩ := not_continues_of_typeEnd hz
  cases plus with
  | false => rfl
  | true => exact read_whileAhead_nil hplus

theorem type_path {p : PlainPath} {f : Phrase → Reader}
    (h : f .path (p.trees ++ z) = some (p.trees, z)) (hz : typeEnd z = true) :
    (typeRule plus).read f (p.trees ++ z) = some (p.trees, z) := by
  obtain ⟨-, -, hbang, -, -⟩ := not_continues_of_typeEnd hz
  have hbehind : (Grammar.ifAhead bangAhead callArguments (more plus)).read f z = some ([], z) := by
    rw [Grammar.read, bangAhead, both, hbang, Bool.false_and]
    exact more_of_typeEnd hz
  have hread := read_seq (g := .rule .path) h hbehind
  rw [List.append_nil] at hread
  rcases p.cases_trees with ⟨w, rest, hw, htrees⟩ | ⟨rest, htrees⟩
  · have hfor : isWord "for" (.word w) = false := by
      rw [isWord_eq_isOneOf]
      exact not_isOneOf_of_segmentWord (by decide) (by decide) hw
    have hfunction : functionAhead (.word w :: (rest ++ z)) = false :=
      not_isOneOf_of_segmentWord (by decide) (by decide) hw
    have hangle : operatorAhead "<" (.word w :: (rest ++ z)) = false := rfl
    rw [htrees, List.cons_append] at hread ⊢
    simp only [Grammar.read] at hread
    simp [typeRule, pathType, cases, Grammar.read, wordAhead, first, hfor, groupAhead, isGroup,
      hfunction, either, hw, hangle, hread]
  · rw [htrees, List.append_assoc] at hread ⊢
    exact hread

/-- What may stand in a bound before its path. -/
def boundOpening : Ahead :=
  anyOf [lifetimeAhead, wordAhead "use", groupAhead .parenthesis, wordAhead "for",
    groupAhead .bracket, operatorAhead "~", wordAhead "const", wordAhead "async", operatorAhead "?"]

theorem PlainPath.boundOpening_trees (p : PlainPath) (z : List TokenTree) :
    boundOpening (p.trees ++ z) = false := by
  rcases p.cases_trees with ⟨w, rest, hw, htrees⟩ | ⟨rest, htrees⟩
  · have hwords : ∀ s ∈ ["use", "for", "const", "async"], isWord s (.word w) = false := by
      intro s hs
      rw [isWord_eq_isOneOf]
      refine not_isOneOf_of_segmentWord ?_ ?_ hw <;> rw [List.forall_mem_singleton] <;>
        revert s <;> decide
    simp only [List.forall_mem_cons] at hwords
    rw [htrees]
    simp [boundOpening, anyOf, lifetimeAhead, wordAhead, Grammar.first, groupAhead, isGroup, hwords,
      operatorAhead, marks]
  · rw [htrees]
    rfl

theorem bound_path {p : PlainPath} {f : Phrase → Reader}
    (h : f .path (p.trees ++ z) = some (p.trees, z)) :
    bound.read f (p.trees ++ z) = some (p.trees, z) := by
  have hopening := p.boundOpening_trees z
  simp only [boundOpening, anyOf, List.any_cons, List.any_nil, Bool.or_eq_false_iff] at hopening
  simp [bound, traitBound, cases, all, Grammar.read, maybeBinder, optional, maybe, maybeWord,
    hopening, h]

/-- A trait behind a word that introduces one. -/
theorem type_bounded {w : String} {p : PlainPath} (hw : w = "impl" ∨ w = "dyn")
    (h : readRule rules n .path (p.trees ++ z) = some (p.trees, z)) (hz : typeEnd z = true) :
    readRule rules (n + 2) (.type plus) (words [w] ++ p.trees ++ z) =
      some (words [w] ++ p.trees, z) := by
  have hbound : (Grammar.rule .bound : Syntax).read (readRule rules (n + 1)) (p.trees ++ z) =
      some (p.trees, z) := bound_path h
  have hbounds : (bounds plus).read (readRule rules (n + 1)) (p.trees ++ z) = some (p.trees, z) := by
    have hmore : (more plus).read (readRule rules (n + 1)) z = some ([], z) := more_of_typeEnd hz
    have hread := read_seq hbound hmore
    rw [List.append_nil] at hread
    exact hread
  have hstar : operatorAhead "*" (p.trees ++ z) = false := by
    rcases p.cases_trees with ⟨v, rest, -, htrees⟩ | ⟨rest, htrees⟩ <;> rw [htrees] <;> rfl
  rcases hw with rfl | rfl
  · have hread := read_seq (read_word (f := readRule rules (n + 1)) "impl") hbounds
    rw [List.append_assoc]
    exact hread
  · have hread := read_seq (read_word (f := readRule rules (n + 1)) "dyn")
      (read_seq (g := maybe "*") (read_optional_not _ hstar) hbounds)
    rw [List.append_assoc]
    exact hread

/-- A reference, perhaps with a lifetime and to what may be changed. -/
theorem type_reference {lifetime mutability ts : List TokenTree}
    (hlifetime : lifetime = [] ∨ isLifetime lifetime = true)
    (hmutability : mutability = [] ∨ mutability = words ["mut"])
    (hstart : lifetimeAhead (ts ++ z) = false ∧ wordAhead "mut" (ts ++ z) = false)
    (h : readRule rules n (.type false) (ts ++ z) = some (ts, z)) :
    readRule rules (n + 1) (.type plus) (sign '&' ++ (lifetime ++ (mutability ++ ts)) ++ z) =
      some (sign '&' ++ (lifetime ++ (mutability ++ ts)), z) := by
  have hmut : (maybeWord "mut" : Syntax).read (readRule rules n) (mutability ++ (ts ++ z)) =
      some (mutability, ts ++ z) := by
    rcases hmutability with rfl | rfl
    · exact read_optional_not _ hstart.2
    · exact read_optional (wordAhead "mut") rfl (read_word "mut")
  have hnone : lifetimeAhead (mutability ++ (ts ++ z)) = false := by
    rcases hmutability with rfl | rfl
    · exact hstart.1
    · rfl
  have hread : (optional lifetimeAhead .lifetime : Syntax).read (readRule rules n)
      (lifetime ++ (mutability ++ (ts ++ z))) = some (lifetime, mutability ++ (ts ++ z)) := by
    rcases hlifetime with rfl | hlifetime
    · exact read_optional_not _ hnone
    · obtain ⟨s, w, rfl⟩ := exists_of_isLifetime hlifetime
      rfl
  have htype : typeNoPlus.read (readRule rules n) (ts ++ z) = some (ts, z) := h
  have hall := read_seq (read_sign '&') (read_seq hread (read_seq hmut htype))
  simp only [List.append_assoc]
  exact hall

/-- Parentheses around types. -/
theorem type_tuple {parts : List (List TokenTree)} {s : Span}
    (hstart : ∀ a ∈ parts, ∃ t rest, a = t :: rest ∧ beginsType t = true)
    (h : ∀ a ∈ parts, ∀ z, typeEnd z = true →
      readRule rules n (.type true) (a ++ z) = some (a, z)) (hz : typeEnd z = true) :
    readRule rules (n + 1) (.type plus) (.group .parenthesis (separated parts) s :: z) =
      some ([.group .parenthesis (separated parts) s], z) := by
  have hne : ∀ a ∈ parts, a ≠ [] := by
    rintro a ha rfl
    obtain ⟨t, rest, hnil, -⟩ := hstart [] ha
    cases hnil
  have hcontent : enclosedTypes.read (readRule rules n) (separated parts) =
      some (separated parts, []) := by
    cases parts with
    | nil => rfl
    | cons a rest =>
      obtain ⟨t, ts, hat, ht⟩ := hstart a List.mem_cons_self
      have htypes := read_listed_separated (g := type) (fun b hb => hne b (List.mem_cons_of_mem a hb))
        fun b hb z hz => h b (List.mem_cons_of_mem a hb) z hz
      obtain ⟨tail, htail, hbehind⟩ : ∃ tail, separated (a :: rest) = a ++ tail ∧
          (optional (operatorAhead ",") (.seq (op ",") (listed type)) : Syntax).read
            (readRule rules n) tail = some (tail, []) ∧ typeEnd tail = true := by
        cases rest with
        | nil => exact ⟨[], (List.append_nil a).symm, rfl, rfl⟩
        | cons b rest => exact ⟨_, rfl, read_optional (operatorAhead ",") rfl
            (read_seq (read_sign ',') htypes), rfl⟩
      have hfirst : type.read (readRule rules n) (a ++ tail) = some (a, tail) :=
        h a List.mem_cons_self tail hbehind.2
      have hread := read_seq hfirst hbehind.1
      have haheads := aheads_of_beginsType ht (ts ++ tail)
      subst hat
      rw [List.cons_append] at hread htail
      rw [htail, enclosedTypes, read_cases_not rfl, read_cases_not haheads.1,
        read_cases_not haheads.2.2.2.2, cases]
      exact hread
  have hmore : (more plus).read (readRule rules n) z = some ([], z) := more_of_typeEnd hz
  have hread := read_seq (read_inside (d := .parenthesis) (s := s) (z := z) hcontent) hmore
  exact hread

/-- Brackets around a type. -/
theorem type_slice {ts : List TokenTree} {s : Span}
    (h : readRule rules n (.type true) ts = some (ts, [])) :
    readRule rules (n + 1) (.type plus) (.group .bracket ts s :: z) =
      some ([.group .bracket ts s], z) := by
  have hcontent : (Grammar.seq type (optional (operatorAhead ";") (.seq (op ";") expression))).read
      (readRule rules n) ts = some (ts, []) := by
    have hread := read_seq (g := type) h
      (read_optional_not (g := .seq (op ";") expression) (operatorAhead ";") rfl)
    rw [List.append_nil] at hread
    exact hread
  have hread := read_inside (d := .bracket) (s := s) (z := z) hcontent
  exact hread

/-! ## Reading them -/

theorem typeEnd_of_boundEnd (h : boundEnd z = true) : typeEnd z = true := by
  rw [boundEnd, anyOf, List.any_cons, List.any_cons, List.any_nil, Bool.or_false] at h
  rw [typeEnd, anyOf]
  simp only [List.any_cons, List.any_nil]
  rcases Bool.or_eq_true_iff.mp h with hcomma | hangle
  · rw [hcomma]; simp
  · rw [hangle]; simp

theorem not_bound_of_boundEnd (h : boundEnd z = true) :
    operatorAhead "=" z = false ∧ operatorAhead ":" z = false ∧ operatorAhead "+" z = false := by
  cases z with
  | nil => cases h
  | cons t z =>
    cases t with
    | word w => cases h
    | literal text s => cases h
    | group d content s => cases h
    | mark c spacing s =>
      have hc : ',' = c ∨ '>' = c := by
        simpa [boundEnd, anyOf, operatorAhead, marks] using h
      rcases hc with rfl | rfl <;> exact ⟨rfl, rfl, rfl⟩

theorem readsAsArgument_lifetime {f : Phrase → Reader} {a : List TokenTree}
    (h : isLifetime a = true) : ReadsAsArgument f a := by
  obtain ⟨s, w, rfl⟩ := exists_of_isLifetime h
  refine ⟨fun z => rfl, fun z hz => ?_⟩
  obtain ⟨-, -, hplus⟩ := not_bound_of_boundEnd hz
  have htest : (both lifetimeAhead (second (never (operatorAhead "+"))))
      ([.mark '\'' .joint s, .word w] ++ z) = true := by
    show (true && !operatorAhead "+" z) = true
    rw [hplus]
    rfl
  rw [argument, cases, Grammar.read, if_pos htest]
  rfl

theorem readsAsArgument_type {f : Phrase → Reader} {a : List TokenTree}
    (hstart : ∃ t rest, a = t :: rest ∧ beginsType t = true)
    (h : ∀ z, typeEnd z = true → f (.type true) (a ++ z) = some (a, z)) : ReadsAsArgument f a := by
  obtain ⟨t, rest, rfl, ht⟩ := hstart
  refine ⟨fun z => ?_, fun z hz => ?_⟩
  · have haheads := aheads_of_beginsType ht (rest ++ z)
    rw [List.cons_append, never, either, haheads.2.2.2.1]
    rfl
  · have haheads := aheads_of_beginsType ht (rest ++ z)
    obtain ⟨hequals, hcolon, -⟩ := not_bound_of_boundEnd hz
    have hnone : (cases
        [(operatorAhead "=", .seq (op "=") (.ifAhead constantAhead constant type)),
         (operatorAhead ":", .seq (op ":") (boundsUntil boundEnd (.rule .bound)))]
        .nothing : Syntax).read f z = some ([], z) := by
      rw [read_cases_not hequals, read_cases_not hcolon]
      rfl
    have hread := read_seq (g := type) (h z (typeEnd_of_boundEnd hz)) hnone
    rw [List.append_nil, List.cons_append] at hread
    rw [List.cons_append, argument, read_cases_not (by rw [both, haheads.1]; rfl),
      read_cases_not haheads.2.2.1, cases]
    exact hread

theorem weightOf_le_separated {as : List (List TokenTree)} {a : List TokenTree} (h : a ∈ as) :
    weightOf a ≤ weightOf (separated as) := by
  induction as with
  | nil => cases h
  | cons b rest ih =>
    cases rest with
    | nil =>
      rw [List.mem_singleton.mp h]
      exact Nat.le_refl _
    | cons c rest =>
      rw [separated, weightOf_append, weightOf_append]
      rcases List.mem_cons.mp h with rfl | hmem
      · exact Nat.le_add_right _ _
      · have hle := ih hmem
        omega

theorem PlainSegment.weightOf_argument_lt {s : PlainSegment} {a : List TokenTree}
    (h : a ∈ s.arguments) : weightOf a < weightOf s.trees := by
  have hne : s.arguments.isEmpty = false := by
    cases hcase : s.arguments with
    | nil => rw [hcase] at h; cases h
    | cons b rest => rfl
  have hle := weightOf_le_separated h
  have hpos := weight_pos (.word s.name)
  rw [trees, argumentTrees, hne, if_neg Bool.false_ne_true, weightOf, angles, weightOf_append,
    weightOf_append]
  omega

theorem PlainPath.weightOf_argument_lt {p : PlainPath} {a : List TokenTree}
    (h : a ∈ p.arguments) : weightOf a < weightOf p.trees := by
  obtain ⟨s, hs, ha⟩ := List.mem_flatMap.mp h
  have hlt := s.weightOf_argument_lt ha
  have hle : ∀ ss : List PlainSegment, s ∈ ss → weightOf s.trees ≤ weightOf (furtherTrees ss) := by
    intro ss hmem
    induction ss with
    | nil => cases hmem
    | cons t ss ih =>
      rw [furtherTrees, List.flatMap_cons, weightOf_append, weightOf_append]
      rcases List.mem_cons.mp hmem with rfl | hmem
      · omega
      · have hle := ih hmem
        rw [furtherTrees] at hle
        omega
  rw [trees, weightOf_append, weightOf_append]
  rcases List.mem_cons.mp hs with rfl | hmem
  · omega
  · have hle := hle p.further hmem
    omega

/-- A path's generic arguments are read where there is enough depth for the path. -/
theorem PlainPath.readsAsArgument {p : PlainPath}
    (htypes : ∀ a ∈ p.arguments, isLifetime a = false → PlainType a)
    (h : ∀ a ∈ p.arguments, isLifetime a = false → ∀ plus, ReadsAsType plus a)
    (hn : depth p.trees ≤ n + 8) : ∀ a ∈ p.arguments, ReadsAsArgument (readRule rules n) a := by
  intro a ha
  cases hlifetime : isLifetime a with
  | true => exact readsAsArgument_lifetime hlifetime
  | false =>
    have hdepth : depth a ≤ n := by
      have hlt := p.weightOf_argument_lt ha
      rw [depth] at hn ⊢
      omega
    exact readsAsArgument_type (htypes a ha hlifetime).exists_eq_cons
      fun z hz => h a ha hlifetime true n z hdepth hz

/-- A plain type is read as it prints, whatever it is part of. -/
theorem PlainType.readsAsType {ts : List TokenTree} (h : PlainType ts) (plus : Bool) :
    ReadsAsType plus ts := by
  induction h generalizing plus with
  | path p htypes ih =>
    intro n z hn hz
    -- between a type and its generic arguments lie the rules of the type, its path and the arguments
    obtain ⟨k, rfl⟩ : ∃ k, n = k + 3 := ⟨n - 3, by rw [depth] at hn; omega⟩
    have hread := p.read (p.readsAsArgument (n := k) htypes ih (by omega)) hz
    exact type_path hread hz
  | bounded w hw p htypes ih =>
    intro n z hn hz
    rw [depth, weightOf_append] at hn
    obtain ⟨k, rfl⟩ : ∃ k, n = k + 4 := ⟨n - 4, by omega⟩
    have hread := p.read (p.readsAsArgument (n := k) htypes ih (by rw [depth]; omega)) hz
    exact type_bounded hw hread hz
  | reference lifetime mutability ts hlifetime hmutability h ih =>
    intro n z hn hz
    obtain ⟨t, rest, rfl, ht⟩ := h.exists_eq_cons
    have haheads := aheads_of_beginsType ht (rest ++ z)
    have hsign : weightOf (sign '&') = 1 := by simp [sign, TokenTree.operator, weightOf, weight]
    rw [depth, weightOf_append, weightOf_append, weightOf_append, hsign] at hn
    obtain ⟨k, rfl⟩ : ∃ k, n = k + 1 := ⟨n - 1, by omega⟩
    have hread := ih false k z (by rw [depth]; omega) hz
    exact type_reference hlifetime hmutability ⟨haheads.1, haheads.2.1⟩ hread
  | tuple parts s h ih =>
    intro n z hn hz
    rw [depth, weightOf, weight] at hn
    obtain ⟨k, rfl⟩ : ∃ k, n = k + 1 := ⟨n - 1, by omega⟩
    refine type_tuple (fun a ha => (h a ha).exists_eq_cons) (fun a ha z hz => ?_) hz
    have hle := weightOf_le_separated ha
    exact ih a ha true k z (by rw [depth]; omega) hz
  | slice ts s h ih =>
    intro n z hn hz
    rw [depth, weightOf, weight] at hn
    obtain ⟨k, rfl⟩ : ∃ k, n = k + 1 := ⟨n - 1, by omega⟩
    have hread := ih true k [] (by rw [depth]; omega) rfl
    rw [List.append_nil] at hread
    exact type_slice hread

end

end CommandBot.Grammar
