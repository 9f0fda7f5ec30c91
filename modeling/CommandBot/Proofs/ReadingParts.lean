import CommandBot.Proofs.ReadingCode
import CommandBot.Proofs.Taking
import CommandBot.Source.ImplBlock

/-
  Attributes, signatures, methods and blocks that are read as they print. For each there is a
  condition on its parts (`ReadsBack`) and a law that its tokens are taken as it again, whatever
  stands behind them; a block's law is put together from those of its methods.
-/

namespace CommandBot

open Grammar Template TokenTree

/-! ## Steps -/

namespace Take

variable {α β : Type} {test : Ahead} {part : Take α} {ts r z : List TokenTree} {a : α} {as : List α}

theorem bind_of_eq {next : α → Take β} (h : part ts = some (a, r)) :
    (part >>= next) ts = next a r := by
  rw [bind_apply, h, Option.bind_some]

/-- Parts that have ended need no more rounds. -/
theorem manyUpTo_mono {n m : Nat} (hnm : n ≤ m) (hr : test r = false)
    (h : manyUpTo test part n ts = some (as, r)) : manyUpTo test part m ts = some (as, r) := by
  induction n generalizing m ts as with
  | zero =>
    cases h
    exact manyUpTo_of_not hr m
  | succ n ih =>
    obtain ⟨m, rfl⟩ : ∃ k, m = k + 1 := ⟨m - 1, by omega⟩
    rw [manyUpTo_succ] at h ⊢
    split at h
    · rename_i htest
      rw [if_pos htest]
      obtain ⟨⟨a, after⟩, ha, h⟩ := Option.bind_eq_some_iff.mp h
      obtain ⟨⟨bs, end_⟩, hb, h⟩ := Option.map_eq_some_iff.mp h
      cases h
      rw [ha, Option.bind_some, ih (by omega) hb]
      rfl
    · rename_i htest
      rw [if_neg htest]
      exact h

theorem many_nil (hts : test ts = false) : many test part ts = some ([], ts) :=
  manyUpTo_of_not hts _

/-- One part and the further ones. -/
theorem many_of_eq (hts : test ts = true) (h : part ts = some (a, z)) (hz : z.length < ts.length)
    (hmore : many test part z = some (as, r)) (hr : test r = false) :
    many test part ts = some (a :: as, r) := by
  obtain ⟨n, hn⟩ : ∃ n, ts.length = n + 1 := ⟨ts.length - 1, by omega⟩
  have hrounds : manyUpTo test part n z = some (as, r) := manyUpTo_mono (by omega) hr hmore
  rw [many, hn, manyUpTo_succ, if_pos hts, h, Option.bind_some, hrounds]
  rfl

/-- Parts that fill some tokens, each taken from its own tokens whatever stands behind them. -/
theorem many_flatMap (trees : α → List TokenTree) (hne : ∀ a ∈ as, trees a ≠ [])
    (h : ∀ a ∈ as, ∀ z, part (trees a ++ z) = some (a, z)) :
    many (never atEnd) part (as.flatMap trees) = some (as, []) := by
  induction as with
  | nil => exact many_nil rfl
  | cons a as ih =>
    have hmore := ih (fun b hb => hne b (List.mem_cons_of_mem a hb))
      fun b hb => h b (List.mem_cons_of_mem a hb)
    have ha := hne a List.mem_cons_self
    rw [List.flatMap_cons]
    refine many_of_eq ?_ (h a List.mem_cons_self _) ?_ hmore rfl
    · exact never_atEnd_of_ne_nil fun hnil => ha (List.append_eq_nil_iff.mp hnil).1
    · rw [List.length_append]
      exact Nat.lt_add_of_pos_left (List.length_pos_iff.mpr ha)

theorem within_of_eq {content : List TokenTree} (d : Delimiter) (s : Span)
    (h : part content = some (a, [])) :
    within d part (.group d content s :: z) = some ((a, s), z) :=
  (within_eq_some_iff d part _ z a s).mpr ⟨content, rfl, h⟩

theorem wordWhere_of_eq {test : TokenTree → Bool} {w : Word} (h : test (.word w) = true) :
    wordWhere test (.word w :: z) = some (w, z) := by
  rw [wordWhere, if_pos h]

end Take

open Take

/-! ## Attributes -/

/-- Arguments that are read as they print. -/
def Arguments.ReadsBack : Arguments → Prop
  | .absent => True
  | .listed _ _ _ => True
  | .assigned equals value => equals = sign '=' ∧ readBy expression value = some (value, [])

namespace Attribute

/-- An attribute of what follows it, with one word for a path, that is read as it prints. -/
structure ReadsBack (a : Attribute) : Prop where
  signs : a.signs = sign '#'
  path : ∃ w, a.path = [.word w] ∧ isName (.word w) = true
  arguments : a.arguments.ReadsBack

variable {a : Attribute} {z : List TokenTree}

theorem ReadsBack.not_isInner (h : a.ReadsBack) : a.isInner = false := by
  rw [isInner, h.signs]
  rfl

theorem takeContent_trees (h : a.ReadsBack) :
    takeContent (a.path ++ a.argumentTrees) = some ((a.path, a.arguments), []) := by
  obtain ⟨w, hpath, hw⟩ := h.path
  have hsegment : plainSegment (.word w) = true := by
    rw [isName] at hw
    rw [plainSegment, hw, Bool.true_or]
  have hend : operatorAhead "::" a.argumentTrees = false := by
    rw [argumentTrees]
    have harguments := h.arguments
    cases hcase : a.arguments with
    | absent => rfl
    | listed d content s => rfl
    | assigned equals value =>
      rw [hcase] at harguments
      rw [harguments.1]
      rfl
  have hunsafe : wordAhead "unsafe" ([.word w] ++ a.argumentTrees) = false :=
    not_isWord_of_isName (by decide) hw
  have hread : piece (.ifAhead (wordAhead "unsafe") (word "unsafe") plainPath)
      (a.path ++ a.argumentTrees) = some (a.path, a.argumentTrees) := by
    have htoken : ∀ f : Phrase → Reader, (token plainSegment : Syntax).read f
        (.word w :: a.argumentTrees) = some ([.word w], a.argumentTrees) := by
      intro f
      simp only [token, Grammar.read, hsegment, if_true, Option.map_some]
    rw [hpath, piece_apply, readBy, Grammar.read, hunsafe]
    exact read_seq (g := maybe "::") (p := []) rfl
      (read_seq (htoken _) (read_whileAhead_nil hend))
  refine (bind_of_eq hread).trans ?_
  have harguments := h.arguments
  rw [argumentTrees]
  cases hcase : a.arguments with
  | absent => rfl
  | listed d content s => rfl
  | assigned equals value =>
    rw [hcase] at harguments
    obtain ⟨rfl, hvalue⟩ := harguments
    have hassigned : (do
        let equals ← Take.piece (op "=")
        let value ← Take.piece Grammar.expression
        pure (Arguments.assigned equals value) : Take Arguments) (sign '=' ++ value) =
          some (.assigned (sign '=') value, []) := by
      have hequals : piece (op "=") (sign '=' ++ value) = some (sign '=', value) := rfl
      refine (bind_of_eq hequals).trans ?_
      exact bind_of_eq hvalue
    refine (bind_of_eq (a := Arguments.assigned (sign '=') value) (r := []) ?_).trans rfl
    exact hassigned

theorem take_trees (h : a.ReadsBack) : take (op "#") (a.trees ++ z) = some (a, z) := by
  have hsign : piece (op "#") (a.trees ++ z) =
      some (a.signs, [.group .bracket (a.path ++ a.argumentTrees) a.bracketSpan] ++ z) := by
    rw [trees, h.signs, List.append_assoc]
    rfl
  refine (bind_of_eq hsign).trans ?_
  exact bind_of_eq (within_of_eq .bracket a.bracketSpan (takeContent_trees h))

/-- Attributes in front of what is none. -/
theorem takeOuter_treesOf {as : List Attribute} (h : ∀ a ∈ as, a.ReadsBack)
    (hz : operatorAhead "#" z = false) : takeOuter (treesOf as ++ z) = some (as, z) := by
  induction as with
  | nil => exact many_nil hz
  | cons a as ih =>
    have ha := h a List.mem_cons_self
    have hahead : operatorAhead "#" (a.trees ++ (treesOf as ++ z)) = true := by
      rw [trees, ha.signs]
      rfl
    have htrees : treesOf (a :: as) = a.trees ++ treesOf as := List.flatMap_cons
    rw [htrees, List.append_assoc, takeOuter_cons hahead (take_trees ha),
      ih fun b hb => h b (List.mem_cons_of_mem a hb)]
    rfl

end Attribute

/-! ## Signatures -/

/-- Tokens that are read as the type of a result, in front of a body. -/
def ReadsAsResult (ts : List TokenTree) : Prop :=
  ∀ n content s z, depth ts ≤ n →
    readRule rules n (.type true) (ts ++ .group .brace content s :: z) =
      some (ts, .group .brace content s :: z)

theorem ReadsAsResult.of_type {ts : List TokenTree} (h : ReadsAsType true ts) : ReadsAsResult ts :=
  fun n _ _ _ hn => h n _ hn rfl

namespace Signature

/-- A signature without further qualifications that is read as it prints. -/
structure ReadsBack (s : Signature) : Prop where
  constness : s.constness = []
  asyncness : s.asyncness = [] ∨ s.asyncness = words ["async"]
  unsafety : s.unsafety = []
  abi : s.abi = []
  functionWord : s.functionWord = words ["fn"]
  name : isName (.word s.name) = true
  generics : s.generics = []
  inputs : takeInputs (s.inputTrees.length + 1) true s.inputTrees = some ((s.inputs, s.variadic), [])
  output : ∀ r ∈ s.output, r.1 = arrow ∧ ReadsAsResult r.2.trees
  clause : s.clause = []

variable {s : Signature} {content z : List TokenTree} {sp : Span}

theorem depth_le_append (ts us : List TokenTree) : depth ts ≤ depth (ts ++ us) := by
  rw [depth, depth, weightOf_append]
  omega

theorem takeOutput_trees (content z : List TokenTree) (sp : Span) (h : s.ReadsBack) :
    takeOutput (s.outputTrees ++ .group .brace content sp :: z) =
      some (s.output, .group .brace content sp :: z) := by
  have houtput := h.output
  unfold outputTrees
  cases hcase : s.output with
  | none => rfl
  | some r =>
    obtain ⟨a, type⟩ := r
    obtain ⟨harrow, htype⟩ := houtput (a, type) hcase
    dsimp only at harrow htype
    subst harrow
    have hread : WrittenType.take true (type.trees ++ .group .brace content sp :: z) =
        some (type, .group .brace content sp :: z) :=
      bind_of_eq (htype _ content sp z (depth_le_append _ _))
    have hahead : ahead (operatorAhead "->") (arrow ++ (type.trees ++ .group .brace content sp :: z)) =
        some (true, arrow ++ (type.trees ++ .group .brace content sp :: z)) := rfl
    have harrow : piece (op "->") (arrow ++ (type.trees ++ .group .brace content sp :: z)) =
        some (arrow, type.trees ++ .group .brace content sp :: z) := rfl
    rw [List.append_assoc]
    refine (bind_of_eq hahead).trans ?_
    refine (bind_of_eq harrow).trans ?_
    exact bind_of_eq hread

theorem take_trees (h : s.ReadsBack) :
    take (s.trees ++ .group .brace content sp :: z) = some (s, .group .brace content sp :: z) := by
  have houtput := takeOutput_trees content z sp h
  obtain ⟨constness, asyncness, unsafety, abi, functionWord, name, generics, inputs, variadic,
    inputsSpan, output, clause⟩ := s
  obtain ⟨hconstness, hasyncness, hunsafety, habi, hfunction, hname, hgenerics, hinputs, -, hclause⟩ :=
    h
  dsimp only at hconstness hasyncness hunsafety habi hfunction hname hgenerics hinputs hclause
  subst hconstness hunsafety habi hfunction hgenerics hclause
  generalize hs : (Signature.mk [] asyncness [] [] (words ["fn"]) name [] inputs variadic inputsSpan
    output []) = s at houtput hinputs ⊢
  generalize hz : s.outputTrees ++ .group .brace content sp :: z = rest at houtput
  have hconst : ∀ ts, piece (maybeWord "const") (asyncness ++ (words ["fn"] ++ ts)) =
      some ([], asyncness ++ (words ["fn"] ++ ts)) := by
    intro ts
    rcases hasyncness with rfl | rfl <;> rfl
  have hasync : ∀ ts, piece (maybeWord "async") (asyncness ++ (words ["fn"] ++ ts)) =
      some (asyncness, words ["fn"] ++ ts) := by
    intro ts
    rcases hasyncness with rfl | rfl <;> rfl
  have hfunction : ∀ ts, piece (word "fn") (words ["fn"] ++ ts) = some (words ["fn"], ts) :=
    fun _ => rfl
  have hgroup : within .parenthesis (fun ts => takeInputs (ts.length + 1) true ts)
      (.group .parenthesis s.inputTrees inputsSpan :: rest) =
        some (((inputs, variadic), inputsSpan), rest) :=
    within_of_eq .parenthesis inputsSpan hinputs
  have hwhere : piece (.rule .whereClause) (.group .brace content sp :: z) =
      some ([], .group .brace content sp :: z) := rfl
  have htrees : s.trees ++ .group .brace content sp :: z =
      asyncness ++ (words ["fn"] ++ (.word name :: .group .parenthesis s.inputTrees inputsSpan :: rest)) := by
    rw [← hz, ← hs]
    simp [trees]
  rw [htrees]
  refine (bind_of_eq (hconst _)).trans ?_
  refine (bind_of_eq (hasync _)).trans ?_
  refine (bind_of_eq (a := []) rfl).trans ?_
  refine (bind_of_eq (a := []) rfl).trans ?_
  refine (bind_of_eq (hfunction _)).trans ?_
  refine (bind_of_eq (wordWhere_of_eq hname)).trans ?_
  refine (bind_of_eq (a := []) rfl).trans ?_
  refine (bind_of_eq hgroup).trans ?_
  refine (bind_of_eq houtput).trans ?_
  refine (bind_of_eq hwhere).trans ?_
  rw [← hs]
  rfl

end Signature

/-! ## Methods -/

namespace Method

/-- A method that is read as it prints. -/
structure ReadsBack (m : Method) : Prop where
  attributes : ∀ a ∈ m.attributes, a.ReadsBack
  qualifiers : m.qualifiers = [] ∨ m.qualifiers = words ["pub"]
  signature : m.signature.ReadsBack
  statements : readBy Grammar.statements m.statements = some (m.statements, [])
  inner : innerAhead m.statements = false

variable {m : Method}

theorem ReadsBack.trees_eq (h : m.ReadsBack) :
    m.trees = Attribute.treesOf m.attributes ++ (m.qualifiers ++ (m.signature.trees ++
      [.group .brace m.statements m.bodySpan])) := by
  have houter : m.attributes.filter (fun a => !a.isInner) = m.attributes :=
    List.filter_eq_self.mpr fun a ha => by rw [(h.attributes a ha).not_isInner]; rfl
  have hinner : m.attributes.filter Attribute.isInner = [] :=
    List.filter_eq_nil_iff.mpr fun a ha => by rw [(h.attributes a ha).not_isInner]; exact Bool.false_ne_true
  rw [trees, houter, hinner]
  simp [Attribute.treesOf]

theorem take_trees (h : m.ReadsBack) (z : List TokenTree) : take (m.trees ++ z) = some (m, z) := by
  have hstart : ∀ ts, operatorAhead "#" (m.qualifiers ++ (m.signature.trees ++ ts)) = false ∧
      takeQualifiers (m.qualifiers ++ (m.signature.trees ++ ts)) =
        some (m.qualifiers, m.signature.trees ++ ts) := by
    intro ts
    have hs := h.signature
    rw [Signature.trees, hs.constness, hs.unsafety, hs.abi, hs.functionWord]
    rcases h.qualifiers with hq | hq <;> rcases hs.asyncness with ha | ha <;> rw [hq, ha] <;>
      exact ⟨rfl, rfl⟩
  have hbody : takeBody (.group .brace m.statements m.bodySpan :: z) =
      some ((([], m.statements), m.bodySpan), z) := by
    refine within_of_eq .brace m.bodySpan ?_
    refine (bind_of_eq (many_nil h.inner)).trans ?_
    exact bind_of_eq h.statements
  have houter := Attribute.takeOuter_treesOf h.attributes
    (hstart (.group .brace m.statements m.bodySpan :: z)).1
  rw [h.trees_eq]
  simp only [List.append_assoc, List.cons_append, List.nil_append]
  refine (bind_of_eq houter).trans ?_
  refine (bind_of_eq (hstart _).2).trans ?_
  refine (bind_of_eq (Signature.take_trees h.signature)).trans ?_
  refine (bind_of_eq hbody).trans ?_
  have hsame : (pure { m with attributes := m.attributes ++ [] } : Take Method) z = some (m, z) := by
    rw [List.append_nil]
    rfl
  exact hsame

/-- A method begins neither as an attribute of what encloses it nor with nothing. -/
theorem ReadsBack.start (h : m.ReadsBack) (z : List TokenTree) :
    m.trees ≠ [] ∧ innerAhead (m.trees ++ z) = false := by
  have hs := h.signature
  have hattributes := h.attributes
  rw [h.trees_eq]
  generalize m.attributes = as at hattributes
  cases as with
  | nil =>
    rw [Signature.trees, hs.constness, hs.unsafety, hs.abi, hs.functionWord]
    rcases h.qualifiers with hq | hq <;> rcases hs.asyncness with ha | ha <;> rw [hq, ha] <;>
      exact ⟨List.cons_ne_nil _ _, rfl⟩
  | cons a as =>
    have htrees : Attribute.treesOf (a :: as) = a.trees ++ Attribute.treesOf as := List.flatMap_cons
    rw [htrees, Attribute.trees, (hattributes a List.mem_cons_self).signs]
    exact ⟨List.cons_ne_nil _ _, rfl⟩

end Method

theorem Member.take_method {m : Method} (h : m.ReadsBack) (z : List TokenTree) :
    take ((Member.method m).trees ++ z) = some (.method m, z) := by
  have hmethod : Method.take ((Member.method m).trees ++ z) = some (m, z) := Method.take_trees h z
  rw [take, hmethod]

/-! ## Blocks -/

namespace ImplBlock

/-- What stands between the word `impl` and the body of a block. -/
def subjectTrees (b : ImplBlock) : List TokenTree := b.implementedTrees ++ b.selfType.trees

/-- A block of methods, without attributes and parameters, that is read as it prints. -/
structure ReadsBack (b : ImplBlock) : Prop where
  attributes : b.attributes = []
  words : b.words = Template.words ["impl"]
  generics : b.generics = []
  parameters : ∀ z, implParametersAhead (b.subjectTrees ++ z) = false
  subject : ∀ content s z, takeSubject (b.subjectTrees ++ .group .brace content s :: z) =
    some ((b.implemented, b.selfType), .group .brace content s :: z)
  clause : b.clause = []
  members : ∀ m ∈ b.members, ∃ n, m = .method n ∧ n.ReadsBack

theorem take_trees {b : ImplBlock} (h : b.ReadsBack) (z : List TokenTree) :
    take (b.trees ++ z) = some (b, z) := by
  have hmembers : many (never atEnd) Member.take (b.members.flatMap Member.trees) =
      some (b.members, []) := by
    refine many_flatMap Member.trees (fun m hm => ?_) fun m hm => ?_
    · obtain ⟨n, rfl, hn⟩ := h.members m hm
      exact (hn.start []).1
    · obtain ⟨n, rfl, hn⟩ := h.members m hm
      exact Member.take_method hn
  have hinner : innerAhead (b.members.flatMap Member.trees) = false := by
    have hmembers := h.members
    generalize b.members = ms at hmembers
    cases ms with
    | nil => rfl
    | cons m ms =>
      obtain ⟨n, rfl, hn⟩ := hmembers m List.mem_cons_self
      rw [List.flatMap_cons]
      exact (hn.start _).2
  have hbody : takeBody (.group .brace (b.members.flatMap Member.trees) b.bodySpan :: z) =
      some ((([], b.members), b.bodySpan), z) := by
    refine within_of_eq .brace b.bodySpan ?_
    refine (bind_of_eq (many_nil hinner)).trans ?_
    exact bind_of_eq hmembers
  have htrees : b.trees ++ z = Template.words ["impl"] ++ (b.subjectTrees ++
      .group .brace (b.members.flatMap Member.trees) b.bodySpan :: z) := by
    rw [trees, h.attributes, h.words, h.generics, h.clause]
    simp [subjectTrees, Attribute.treesOf]
  have hwhere : piece (.rule .whereClause)
      (.group .brace (b.members.flatMap Member.trees) b.bodySpan :: z) =
        some ([], .group .brace (b.members.flatMap Member.trees) b.bodySpan :: z) := rfl
  have hparameters : ∀ ts, piece implParameters (b.subjectTrees ++ ts) =
      some ([], b.subjectTrees ++ ts) := by
    intro ts
    rw [piece_apply, readBy, implParameters, Grammar.read, h.parameters ts]
    rfl
  rw [htrees]
  refine (bind_of_eq (many_nil rfl)).trans ?_
  refine (bind_of_eq (a := Template.words ["impl"]) rfl).trans ?_
  refine (bind_of_eq (hparameters _)).trans ?_
  refine (bind_of_eq (h.subject _ _ _)).trans ?_
  refine (bind_of_eq hwhere).trans ?_
  refine (bind_of_eq hbody).trans ?_
  have hsame : (⟨[] ++ [], Template.words ["impl"], [], b.implemented, b.selfType, [], b.members,
      b.bodySpan⟩ : ImplBlock) = b := by
    obtain ⟨attributes, words, generics, implemented, selfType, clause, members, bodySpan⟩ := b
    obtain ⟨rfl, rfl, rfl, -, -, rfl, -⟩ := h
    rfl
  exact congrArg (fun c => some (c, z)) hsame

end ImplBlock

end CommandBot
