import CommandBot.Proofs.LexedPieces
import CommandBot.Proofs.TidyRules
import CommandBot.Source.File

/-
  What is read from tokens that a lexer could have read prints as such tokens again. `Take.Yields`
  says so of one step and holds of steps one after the other; the types, attributes and methods of a
  block, and the blocks and modules of a file, are as `IsLegible` says.
-/

namespace CommandBot

open TokenTree Piece Grammar

/-! ## Steps -/

theorem Grammar.unplacedAll_of_readOperator {cs : List Char} {ts p rest : List TokenTree}
    (h : readOperator cs ts = some (p, rest)) : unplacedAll p = TokenTree.operator cs := by
  fun_induction readOperator cs ts generalizing p with
  | case1 ts =>
    cases h
    exact unplacedAll_nil
  | case2 d spacing s rest' =>
    cases h
    rw [unplacedAll_cons, unplaced_mark, unplacedAll_nil]
    rfl
  | case3 => cases h
  | case4 cs c s ts hne ih =>
    obtain ⟨r, hr, h⟩ := Option.map_eq_some_iff.mp h
    cases h
    rw [unplacedAll_cons, unplaced_mark, ih hr, TokenTree.operator]
    exact hne
  | case5 => cases h
  | case6 => cases h

namespace Take

variable {α β : Type} {P : α → Prop} {Q : β → Prop} {part : Take α}

/-- From readable tokens a part takes some at the front and gives what is as `P` says. -/
def Yields (P : α → Prop) (part : Take α) : Prop :=
  ∀ ts a rest, part ts = some (a, rest) → Legible ts → P a ∧ rest <:+ ts

theorem yields_pure {a : α} (h : P a) : Yields P (pure a : Take α) := by
  intro ts b rest hread _
  cases hread
  exact ⟨h, List.suffix_refl _⟩

theorem yields_fail : Yields P (fail : Take α) := fun _ _ _ h => nomatch h

theorem yields_fail_bind {next : α → Take β} : Yields Q (fail >>= next) := fun _ _ _ h => nomatch h

theorem yields_bind {next : α → Take β} (hpart : Yields P part)
    (hnext : ∀ a, P a → Yields Q (next a)) : Yields Q (part >>= next) := by
  intro ts b rest hread hts
  rw [bind_apply] at hread
  obtain ⟨⟨a, rest'⟩, ha, hb⟩ := Option.bind_eq_some_iff.mp hread
  obtain ⟨hP, hsuffix⟩ := hpart ts a rest' ha hts
  obtain ⟨hQ, hsuffix'⟩ := hnext a hP rest' b rest hb (readable_of_suffix hsuffix hts)
  exact ⟨hQ, hsuffix'.trans hsuffix⟩

theorem yields_ahead (test : Ahead) : Yields (fun _ => True) (ahead test) := by
  intro ts a rest hread _
  cases hread
  exact ⟨trivial, List.suffix_refl _⟩

theorem yields_piece {g : Syntax} (h : g.Tidy false) :
    Yields (fun p => Legible p) (piece g) := keeps_readBy h

/-- The signs of an operator are, places aside, as the generator writes them. -/
theorem yields_op (s : String) (h : (op s : Syntax).Tidy false) :
    Yields (fun p => Legible p ∧ unplacedAll p = TokenTree.operator s.toList) (piece (op s)) := by
  intro ts p rest hread hts
  obtain ⟨hp, hsuffix⟩ := keeps_readBy h ts p rest hread hts
  exact ⟨⟨hp, unplacedAll_of_readOperator hread⟩, hsuffix⟩

theorem yields_wordWhere (test : TokenTree → Bool) :
    Yields (fun w => (Piece.word w.text).IsSound ∧ test (.word w) = true) (wordWhere test) := by
  intro ts w rest hread hts
  unfold wordWhere at hread
  split at hread
  · obtain ⟨htest, heq⟩ := Option.ite_none_right_eq_some.mp hread
    cases heq
    rw [Legible, piecesOf_cons, pieces_word] at hts
    exact ⟨⟨hts.1, htest⟩, List.suffix_cons _ _⟩
  · cases hread

theorem yields_within {d : Delimiter} (h : Yields P part) :
    Yields (fun r => P r.1) (within d part) := by
  rintro ts ⟨a, s⟩ rest hread hts
  obtain ⟨content, rfl, hpart⟩ := (within_eq_some_iff d part ts rest a s).mp hread
  exact ⟨(h content a [] hpart (readable_group hts)).1, List.suffix_cons _ _⟩

/-- What fills a group is taken with it, whatever it is. -/
theorem yields_within_any {d : Delimiter} (part : Take α) :
    Yields (fun _ => True) (within d part) := by
  rintro ts ⟨a, s⟩ rest hread hts
  obtain ⟨content, rfl, -⟩ := (within_eq_some_iff d part ts rest a s).mp hread
  exact ⟨trivial, List.suffix_cons _ _⟩

theorem yields_manyUpTo {test : Ahead} (h : Yields P part) (n : Nat) :
    Yields (fun as => ∀ a ∈ as, P a) (manyUpTo test part n) := by
  induction n with
  | zero => exact yields_pure fun a ha => nomatch ha
  | succ n ih =>
    rw [manyUpTo]
    refine yields_bind (yields_ahead test) fun b _ => ?_
    split
    · refine yields_bind h fun a ha => yields_bind ih fun rest hrest => yields_pure ?_
      exact List.forall_mem_cons.mpr ⟨ha, hrest⟩
    · exact yields_pure fun a ha => nomatch ha

theorem yields_many {test : Ahead} (h : Yields P part) :
    Yields (fun as => ∀ a ∈ as, P a) (many test part) :=
  fun ts a rest hread hts => yields_manyUpTo h ts.length ts a rest hread hts

/-- What all readable tokens together give is as `P` says. -/
theorem Yields.all? (h : Yields P part) {ts : List TokenTree} {a : α}
    (ha : Take.all? part ts = some a) (hts : Legible ts) : P a :=
  (h ts a [] (all?_eq_some.mp ha) hts).1

end Take

open Take

/-! ## Types -/

namespace WrittenType

def IsLegible (t : WrittenType) : Prop := Legible t.trees

theorem yields_take (plus : Bool) : Yields IsLegible (take plus) :=
  yields_bind (yields_piece (tidy_rule _)) fun _ hp => yields_pure hp

theorem yields_takeSegment :
    Yields (fun s => (Piece.word s.word.text).IsSound) takeSegment := by
  refine yields_bind (yields_wordWhere _) fun w hw => ?_
  split
  · exact yields_pure hw.1
  · refine yields_bind (yields_piece ?_) fun _ _ => yields_pure hw.1
    simp [segmentArguments, Grammar.cases]

theorem yields_takeSegments :
    Yields (fun ss => ∀ s ∈ ss, (Piece.word s.word.text).IsSound) takeSegments := by
  refine yields_bind (yields_piece (by simp)) fun _ _ => ?_
  refine yields_bind yields_takeSegment fun s hs => ?_
  refine yields_bind (yields_many (yields_bind (yields_piece (by simp)) fun _ _ =>
    yields_takeSegment)) fun rest hrest => yields_pure ?_
  exact List.forall_mem_cons.mpr ⟨hs, hrest⟩

theorem isSound_lastSegment? {t : WrittenType} {s : Segment} (ht : t.IsLegible)
    (hs : t.lastSegment? = some s) : (Piece.word s.word.text).IsSound := by
  obtain ⟨ss, hss, hlast⟩ := Option.bind_eq_some_iff.mp hs
  exact yields_takeSegments.all? hss ht s (List.mem_of_getLast? hlast)

end WrittenType

/-! ## Attributes -/

/-- Arguments that print as tokens which could have been read. -/
def Arguments.IsLegible : Arguments → Prop
  | .absent => True
  | .listed _ content _ => Legible content
  | .assigned sign value =>
    Legible sign ∧ unplacedAll sign = TokenTree.operator ['='] ∧ Legible value

namespace Attribute

/-- Signs which, places aside, are those of an attribute. -/
def AreSigns (signs : List TokenTree) : Prop :=
  signs.length = 2 ∨ unplacedAll signs = TokenTree.operator ['#']

/-- An attribute that prints as tokens which could have been read. -/
structure IsLegible (a : Attribute) : Prop where
  trees : Legible a.trees
  signs : AreSigns a.signs
  arguments : a.arguments.IsLegible

theorem yields_takeContent :
    Yields (fun r => Legible r.1 ∧ r.2.IsLegible) takeContent := by
  refine yields_bind (yields_piece (by simp)) fun path hpath => ?_
  refine yields_bind (P := Arguments.IsLegible) ?_ fun arguments hargs =>
    yields_pure ⟨hpath, hargs⟩
  intro ts a rest hread hts
  beta_reduce at hread
  split at hread
  · cases hread
    exact ⟨readable_group hts, List.nil_suffix⟩
  · cases hread
    exact ⟨trivial, List.suffix_refl _⟩
  · have hassigned : Yields Arguments.IsLegible (do
        let sign ← Take.piece (op "=")
        let value ← Take.piece Grammar.expression
        pure (.assigned sign value)) :=
      yields_bind (yields_op "=" (by simp)) fun sign hsign =>
        yields_bind (yields_piece (by simp)) fun value hvalue =>
          yields_pure ⟨hsign.1, hsign.2, hvalue⟩
    exact hassigned ts a rest hread hts

theorem yields_take {signs : Syntax}
    (h : Yields (fun p => Legible p ∧ AreSigns p) (piece signs)) : Yields IsLegible (take signs) := by
  refine yields_bind h fun signs hsigns => ?_
  refine yields_bind (yields_within yields_takeContent) fun r hr => ?_
  obtain ⟨⟨path, arguments⟩, s⟩ := r
  refine yields_pure ⟨?_, hsigns.2, hr.2⟩
  refine readable_append hsigns.1 (readable_of_group s (readable_append hr.1 ?_))
  cases arguments with
  | absent => exact readable_nil
  | listed d content s => exact readable_of_group s hr.2
  | assigned sign value => exact readable_append hr.2.1 hr.2.2.2

theorem yields_takeOuter : Yields (fun as => ∀ a ∈ as, a.IsLegible) takeOuter :=
  yields_many (yields_take fun ts p rest hread hts =>
    have hsign := yields_op "#" (by simp) ts p rest hread hts
    ⟨⟨hsign.1.1, .inr hsign.1.2⟩, hsign.2⟩)

theorem yields_takeInner : Yields (fun as => ∀ a ∈ as, a.IsLegible) takeInner := by
  refine yields_many (yields_take fun ts p rest hread hts => ?_)
  obtain ⟨hp, hsuffix⟩ := yields_piece (g := .seq (op "#") (op "!")) (by simp) ts p rest hread hts
  obtain ⟨⟨a, after⟩, ha, hread⟩ := Option.bind_eq_some_iff.mp hread
  obtain ⟨⟨b, end_⟩, hb, heq⟩ := Option.map_eq_some_iff.mp hread
  cases heq
  have hfirst : a.length = 1 := by
    rewrite [← length_unplacedAll, unplacedAll_of_readOperator ha]
    rfl
  have hsecond : b.length = 1 := by
    rewrite [← length_unplacedAll, unplacedAll_of_readOperator hb]
    rfl
  refine ⟨⟨hp, .inl ?_⟩, hsuffix⟩
  rw [List.length_append, hfirst, hsecond]

end Attribute

/-! ## Methods and blocks -/

/-- A signature whose name and result print as tokens which could have been read. -/
structure Signature.IsLegible (s : Signature) : Prop where
  name : (Piece.word s.name.text).IsSound
  isName : isName (.word s.name) = true
  output : Legible s.outputTrees
  arrow : ∀ r ∈ s.output, unplacedAll r.1 = TokenTree.operator ['-', '>']

namespace Signature

theorem yields_takeOutput :
    Yields (fun o => ∀ r ∈ o, Legible (r.1 ++ r.2.trees) ∧
      unplacedAll r.1 = TokenTree.operator ['-', '>']) takeOutput := by
  refine yields_bind (yields_ahead _) fun b _ => ?_
  split
  · refine yields_bind (yields_op "->" (by simp)) fun arrow harrow => ?_
    refine yields_bind (WrittenType.yields_take true) fun type htype => yields_pure ?_
    rintro r ⟨⟩
    exact ⟨readable_append harrow.1 htype, harrow.2⟩
  · exact yields_pure fun r hr => nomatch hr

theorem yields_take : Yields IsLegible take := by
  refine yields_bind (yields_piece (by simp)) fun _ _ => ?_
  refine yields_bind (yields_piece (by simp)) fun _ _ => ?_
  refine yields_bind (yields_piece (by simp)) fun _ _ => ?_
  refine yields_bind (yields_piece (by simp)) fun _ _ => ?_
  refine yields_bind (yields_piece (by simp)) fun _ _ => ?_
  refine yields_bind (yields_wordWhere _) fun name hname => ?_
  refine yields_bind (yields_piece (by simp)) fun _ _ => ?_
  refine yields_bind (yields_within_any _) fun r _ => ?_
  refine yields_bind yields_takeOutput fun output houtput => ?_
  refine yields_bind (yields_piece (by simp)) fun _ _ =>
    yields_pure ⟨hname.1, hname.2, ?_, fun r hr => (houtput r hr).2⟩
  cases output with
  | none => exact readable_nil
  | some o => exact (houtput o rfl).1

end Signature

/-- A method whose attributes, name and result print as tokens which could have been read. -/
structure Method.IsLegible (m : Method) : Prop where
  attributes : ∀ a ∈ m.attributes, a.IsLegible
  signature : m.signature.IsLegible

theorem Method.yields_take : Yields IsLegible take := by
  have hbody : Yields (fun r => ∀ a ∈ r.1.1, a.IsLegible) takeBody :=
    yields_within (P := fun r : List Attribute × List TokenTree => ∀ a ∈ r.1, a.IsLegible)
      (yields_bind Attribute.yields_takeInner fun inner hinner =>
        yields_bind (yields_piece (by simp)) fun _ _ => yields_pure hinner)
  refine yields_bind Attribute.yields_takeOuter fun outer houter => ?_
  refine yields_bind (yields_piece (by simp)) fun _ _ => ?_
  refine yields_bind Signature.yields_take fun signature hsignature => ?_
  refine yields_bind hbody fun r hinner => yields_pure ⟨?_, hsignature⟩
  exact List.forall_mem_append.mpr ⟨houter, hinner⟩

/-- A block whose type and methods print as tokens which could have been read. -/
structure ImplBlock.IsLegible (b : ImplBlock) : Prop where
  selfType : b.selfType.IsLegible
  methods : ∀ m ∈ b.methods, m.IsLegible

/-- A member is taken from the front, and if it is a method it is readable. -/
theorem Member.yields_take : Yields (fun m => ∀ n ∈ m.method?, n.IsLegible) take := by
  intro ts m rest hread hts
  unfold take at hread
  split at hread
  · rename_i hmethod
    cases hread
    obtain ⟨hm, hsuffix⟩ := Method.yields_take _ _ _ hmethod hts
    refine ⟨?_, hsuffix⟩
    rintro n ⟨⟩
    exact hm
  · obtain ⟨r, hr, heq⟩ := Option.map_eq_some_iff.mp hread
    cases heq
    refine ⟨fun n hn => (nomatch hn), ?_⟩
    -- the member may stay as written, which need not be readable by itself
    obtain ⟨q, hq, heq⟩ := Option.map_eq_some_iff.mp hr
    cases heq
    exact ((keeps_readRule (depth ts)).1 .member ts q.1 q.2 hq hts).2

namespace ImplBlock

theorem yields_takeSubject : Yields (fun r => r.2.IsLegible) takeSubject := by
  refine yields_bind (yields_piece (by simp)) fun polarity _ => ?_
  refine yields_bind (WrittenType.yields_take true) fun first hfirst => ?_
  refine yields_bind (yields_ahead _) fun b _ => ?_
  split
  · refine yields_bind (yields_piece (by simp)) fun _ _ => ?_
    split
    · exact yields_fail_bind
    · exact yields_bind (WrittenType.yields_take true) fun type htype => yields_pure htype
  · split
    · exact yields_fail_bind
    · exact yields_pure hfirst

theorem yields_takeBody :
    Yields (fun r => ∀ m ∈ r.1.2, ∀ n ∈ m.method?, n.IsLegible) takeBody := by
  refine yields_within (P := fun r : List Attribute × List Member =>
    ∀ m ∈ r.2, ∀ n ∈ m.method?, n.IsLegible)
    (yields_bind Attribute.yields_takeInner fun inner _ => ?_)
  refine yields_bind (yields_many Member.yields_take) fun members hmembers => ?_
  refine yields_bind (yields_ahead _) fun b _ => ?_
  split
  · exact yields_fail_bind
  · exact yields_pure hmembers

theorem yields_take : Yields IsLegible take := by
  refine yields_bind Attribute.yields_takeOuter fun outer _ => ?_
  refine yields_bind (yields_piece (by simp [all])) fun _ _ => ?_
  refine yields_bind (yields_piece (by simp)) fun _ _ => ?_
  refine yields_bind yields_takeSubject fun r hsubject => ?_
  refine yields_bind (yields_piece (by simp)) fun _ _ => ?_
  refine yields_bind yields_takeBody fun q hmembers => yields_pure ⟨hsubject, ?_⟩
  intro m hm
  obtain ⟨member, hmember, hmethod⟩ := List.mem_filterMap.mp hm
  exact hmembers member hmember m hmethod

/-- The block that a text is, is readable. -/
theorem isLegible_of_parse? {s : String} {b : ImplBlock} (h : parse? s = some b) :
    b.IsLegible := by
  obtain ⟨ts, hts, hb⟩ := Option.bind_eq_some_iff.mp h
  exact yields_take.all? hb (Lexer.readable_of_tokens hts)

end ImplBlock

/-! ## Files -/

/-- An item whose blocks and modules are made of tokens that could have been read. -/
inductive Item.IsLegible : Item → Prop
  | block {b : ImplBlock} (h : b.IsLegible) : Item.IsLegible (.block b)
  | module {name : String} {items : List Item} (hname : (Piece.word name).IsSound)
    (hitems : ∀ i ∈ items, Item.IsLegible i) : Item.IsLegible (.module name items)
  | other : Item.IsLegible .other

namespace Item

theorem yields_takeModuleHead :
    Yields (fun w => (Piece.word w.text).IsSound) takeModuleHead := by
  refine yields_bind Attribute.yields_takeOuter fun _ _ => ?_
  refine yields_bind (yields_piece (by simp [all])) fun _ _ => ?_
  refine yields_bind (yields_wordWhere _) fun name hname => ?_
  refine yields_bind (yields_ahead _) fun b _ => ?_
  split
  · exact yields_fail_bind
  · exact yields_pure hname.1

theorem yields_takeItems (n : Nat) :
    Yields (fun items => ∀ i ∈ items, IsLegible i) (takeItems n) := by
  induction n with
  | zero => exact yields_fail
  | succ n ih =>
    rw [takeItems]
    refine yields_many fun ts i rest hread hts => ?_
    split at hread
    · rename_i hblock
      cases hread
      obtain ⟨hb, hsuffix⟩ := ImplBlock.yields_take _ _ _ hblock hts
      exact ⟨.block hb, hsuffix⟩
    · split at hread
      · rename_i hhead
        obtain ⟨hname, hsuffix⟩ := yields_takeModuleHead _ _ _ hhead hts
        obtain ⟨r, hr, heq⟩ := Option.map_eq_some_iff.mp hread
        cases heq
        have hbody := yields_within (d := .brace)
          (yields_bind Attribute.yields_takeInner fun _ _ => ih)
        obtain ⟨hitems, hsuffix'⟩ := hbody _ r.1 r.2 hr (readable_of_suffix hsuffix hts)
        exact ⟨.module hname hitems, hsuffix'.trans hsuffix⟩
      · obtain ⟨r, hr, heq⟩ := Option.map_eq_some_iff.mp hread
        cases heq
        have hkeeps := keeps_readBy (g := .seq outerAttributes (.rule .item)) (by simp)
        exact ⟨.other, (hkeeps ts r.1 r.2 hr hts).2⟩

end Item

/-- The items of a file are readable. -/
theorem SourceFile.isLegible_of_parse? {s : String} {f : SourceFile} (h : parse? s = some f) :
    ∀ i ∈ f.items, i.IsLegible := by
  obtain ⟨ts, hts, hf⟩ := Option.bind_eq_some_iff.mp h
  obtain ⟨items, hitems, heq⟩ := Option.bind_eq_some_iff.mp hf
  cases heq
  have hfile := yields_bind Attribute.yields_takeInner fun _ _ =>
    Item.yields_takeItems (TokenTree.weightOf ts + 1)
  exact hfile.all? hitems (Lexer.readable_of_tokens hts)

end CommandBot
