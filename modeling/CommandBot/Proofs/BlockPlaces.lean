import CommandBot.Proofs.FileDeclarations
import CommandBot.Proofs.LexedPlaces
import CommandBot.Proofs.PartPlaces

/-
  Where the blocks of a text stand. A block reaches from the first of the tokens that it is taken
  from to the last (`exists_span_of_take`), so its attributes are included; and a block of a file is
  taken from the file's tokens or from what is in a group among them (`exists_of_takeItems`). So
  every block that is read `StandsIn` its text, with all its parts.
-/

namespace CommandBot

open TokenTree Grammar

/-- The stretch of a block, from the first token of its attributes to its last bracket. -/
def ImplBlock.span (b : ImplBlock) : Span := spanOf b.trees

/-! ## The first token -/

namespace Grammar

/-- What is read prints as it is written. -/
def Copies (r : Reader) : Prop := ∀ ts p rest, r ts = some (p, rest) → ts = p ++ rest

variable {call : Phrase → Reader}

theorem copies_word (s : String) : Copies ((word s).read call) := by
  intro ts p rest hread
  cases ts with
  | nil => cases hread
  | cons t ts =>
    obtain ⟨q, hq, heq⟩ := Option.map_eq_some_iff.mp hread
    obtain ⟨-, hq⟩ := Option.ite_none_right_eq_some.mp hq
    cases hq
    cases heq
    rfl

theorem copies_maybeWord (s : String) : Copies ((maybeWord s).read call) := by
  intro ts p rest hread
  rw [maybeWord, optional, read.eq_def] at hread
  dsimp only at hread
  split at hread
  · exact copies_word s ts p rest hread
  · cases hread
    rfl

theorem copies_seq {a b : Syntax} (ha : Copies (a.read call)) (hb : Copies (b.read call)) :
    Copies ((seq a b).read call) := by
  intro ts p rest hread
  obtain ⟨r, hr, hmap⟩ := Option.bind_eq_some_iff.mp hread
  obtain ⟨q, hq, heq⟩ := Option.map_eq_some_iff.mp hmap
  cases heq
  rw [ha _ _ _ hr, hb _ _ _ hq, List.append_assoc]

theorem exists_of_readOperator {c : Char} {ts p rest : List TokenTree}
    (h : readOperator [c] ts = some (p, rest)) :
    ∃ spacing s, ts = .mark c spacing s :: rest ∧ p = [.mark c .alone s] := by
  unfold readOperator at h
  split at h
  · rename_i heq
    cases heq
  · rename_i heq
    cases heq
    split at h
    · rename_i hc
      cases h
      exact ⟨_, _, by rw [hc], by rw [hc]⟩
    · cases h
  · rename_i hne heq
    cases heq
    exact absurd rfl hne
  · cases h

end Grammar

namespace Take

variable {α : Type} {test : Ahead} {part : Take α} {ts rest : List TokenTree} {as : List α}

/-- Either no part is taken, or the first one from the front. -/
theorem cases_of_many (h : many test part ts = some (as, rest)) :
    as = [] ∧ rest = ts ∨ ∃ a as' behind, as = a :: as' ∧ part ts = some (a, behind) := by
  rw [many] at h
  cases ts with
  | nil =>
    cases h
    exact .inl ⟨rfl, rfl⟩
  | cons t ts =>
    rw [List.length_cons, manyUpTo_succ] at h
    split at h
    · obtain ⟨⟨a, behind⟩, ha, hmap⟩ := Option.bind_eq_some_iff.mp h
      obtain ⟨q, -, heq⟩ := Option.map_eq_some_iff.mp hmap
      cases heq
      exact .inr ⟨a, q.1, behind, rfl, ha⟩
    · cases h
      exact .inl ⟨rfl, rfl⟩

/-- Each part is taken from the front of what the ones before it leave. -/
theorem exists_of_many (hpart : TakesFront part) (h : many test part ts = some (as, rest)) :
    ∀ a ∈ as, ∃ us behind, us <:+ ts ∧ part us = some (a, behind) := by
  rw [many] at h
  generalize ts.length = n at h
  induction n generalizing ts as with
  | zero =>
    cases h
    exact fun a ha => absurd ha List.not_mem_nil
  | succ n ih =>
    rw [manyUpTo_succ] at h
    split at h
    · obtain ⟨⟨a, behind⟩, ha, hmap⟩ := Option.bind_eq_some_iff.mp h
      obtain ⟨q, hq, heq⟩ := Option.map_eq_some_iff.mp hmap
      cases heq
      refine List.forall_mem_cons.mpr ⟨⟨ts, behind, List.suffix_refl _, ha⟩, fun b hb => ?_⟩
      obtain ⟨us, behind', hus, hread⟩ := ih hq b hb
      exact ⟨us, behind', hus.trans (hpart _ _ _ ha), hread⟩
    · cases h
      exact fun a ha => absurd ha List.not_mem_nil

end Take

open Take

namespace Attribute

/-- An attribute of what follows begins with its sign, of which it has one. -/
theorem exists_signs_of_take {ts rest : List TokenTree} {a : Attribute}
    (h : take (op "#") ts = some (a, rest)) :
    ∃ spacing s behind, ts = .mark '#' spacing s :: behind ∧ a.signs = [.mark '#' .alone s] := by
  rw [take, bind_apply] at h
  obtain ⟨⟨signs, behind⟩, hsigns, h⟩ := Option.bind_eq_some_iff.mp h
  obtain ⟨⟨content, rest'⟩, -, h⟩ := Option.bind_eq_some_iff.mp h
  cases h
  obtain ⟨spacing, s, hts, hsign⟩ := exists_of_readOperator hsigns
  exact ⟨spacing, s, behind, hts, hsign⟩

theorem isInner_of_takeInner {ts rest : List TokenTree} {as : List Attribute}
    (h : takeInner ts = some (as, rest)) : ∀ a ∈ as, a.isInner = true := by
  have hsigns : Finds (fun _ => True) (fun p => p.length = 2) (piece (.seq (op "#") (op "!"))) := by
    intro us p behind hread
    obtain ⟨front, rfl⟩ := suffix_of_readBy hread
    refine ⟨front, rfl, fun _ => ?_⟩
    obtain ⟨⟨x, after⟩, hx, hread⟩ := Option.bind_eq_some_iff.mp hread
    obtain ⟨⟨y, end_⟩, hy, heq⟩ := Option.map_eq_some_iff.mp hread
    cases heq
    obtain ⟨_, _, _, rfl⟩ := exists_of_readOperator hx
    obtain ⟨_, _, _, rfl⟩ := exists_of_readOperator hy
    rfl
  have hall : Finds (fun _ => True) (fun as : List Attribute => ∀ a ∈ as, a.isInner = true)
      takeInner := by
    refine finds_many (finds_bind hsigns fun signs => ?_)
    refine finds_after (takesFront_within _ _) fun content => finds_pure fun hlength => ?_
    exact beq_iff_eq.mpr hlength
  obtain ⟨front, -, hinner⟩ := hall ts as rest h
  exact hinner fun _ _ => trivial

end Attribute

namespace ImplBlock

variable {ts rest : List TokenTree} {b : ImplBlock}

theorem takesFront_takeSubject : TakesFront takeSubject :=
  (finds_takeSubject (r := .generated)).takesFront

theorem takesFront_take : TakesFront take := (finds_take (r := .generated)).takesFront

/-- The words of a block. -/
abbrev blockWords : Syntax := all [maybeWord "default", maybeWord "unsafe", word "impl"]

/-- A block is taken from its attributes, its words, and what reaches to the end of its body. -/
theorem exists_of_take (h : take ts = some (b, rest)) :
    ∃ outer inner words ts₁ ts₂ content,
      Attribute.takeOuter ts = some (outer, ts₁) ∧ (∀ a ∈ inner, a.isInner = true) ∧
        b.attributes = outer ++ inner ∧ readBy blockWords ts₁ = some (words, ts₂) ∧
        b.words = words ∧ .group .brace content b.bodySpan :: rest <:+ ts₂ := by
  rw [take, bind_apply] at h
  obtain ⟨⟨outer, ts₁⟩, houter, h⟩ := Option.bind_eq_some_iff.mp h
  obtain ⟨⟨words, ts₂⟩, hwords, h⟩ := Option.bind_eq_some_iff.mp h
  obtain ⟨⟨generics, ts₃⟩, hgenerics, h⟩ := Option.bind_eq_some_iff.mp h
  obtain ⟨⟨subject, ts₄⟩, hsubject, h⟩ := Option.bind_eq_some_iff.mp h
  obtain ⟨⟨clause, ts₅⟩, hclause, h⟩ := Option.bind_eq_some_iff.mp h
  obtain ⟨⟨⟨⟨inner, members⟩, bodySpan⟩, rest'⟩, hbody, h⟩ := Option.bind_eq_some_iff.mp h
  cases h
  obtain ⟨content, rfl, hcontent⟩ := (within_eq_some_iff _ _ _ _ _ _).mp hbody
  have hinner : ∀ a ∈ inner, a.isInner = true := by
    obtain ⟨⟨inner', behind⟩, hinner, hcontent⟩ := Option.bind_eq_some_iff.mp hcontent
    obtain ⟨⟨members', behind'⟩, -, hcontent⟩ := Option.bind_eq_some_iff.mp hcontent
    dsimp only at hcontent
    rw [bind_apply, ahead_apply, Option.bind_some] at hcontent
    dsimp only at hcontent
    split at hcontent
    · cases hcontent
    · cases hcontent
      exact Attribute.isInner_of_takeInner hinner
  have hsuffix := (suffix_of_readBy hclause).trans
    ((takesFront_takeSubject _ _ _ hsubject).trans (suffix_of_readBy hgenerics))
  exact ⟨outer, inner, words, ts₁, ts₂, content, houter, hinner, rfl, hwords, rfl, hsuffix⟩

/-- A block prints first what is read first: the sign of its first attribute, or else a word. -/
theorem exists_head_of_take (h : take ts = some (b, rest)) :
    ∃ t u, b.trees.head? = some t ∧ ts.head? = some u ∧ t.span = u.span := by
  obtain ⟨outer, inner, words, ts₁, ts₂, content, houter, hinner, hattributes, hwords, hsame, -⟩ :=
    exists_of_take h
  rw [trees, hattributes, hsame]
  rcases cases_of_many houter with ⟨rfl, rfl⟩ | ⟨a, as, behind, rfl, ha⟩
  · have hcopied : ts₁ = words ++ ts₂ :=
      copies_seq (copies_maybeWord _) (copies_seq (copies_maybeWord _) (copies_word _)) _ _ _ hwords
    have hsome : words ≠ [] := ne_nil_of_readBy (by simp [all]) hwords
    obtain ⟨w, ws, rfl⟩ := List.exists_cons_of_ne_nil hsome
    have houtside : inner.filter (fun a => !a.isInner) = [] :=
      List.filter_eq_nil_iff.mpr fun a ha => by rw [hinner a ha]; exact Bool.false_ne_true
    refine ⟨w, w, ?_, by rw [hcopied]; rfl, rfl⟩
    simp [houtside, Attribute.treesOf]
  · obtain ⟨spacing, s, after, rfl, hsigns⟩ := Attribute.exists_signs_of_take ha
    refine ⟨.mark '#' .alone s, .mark '#' spacing s, ?_, rfl, rfl⟩
    simp [Attribute.isInner, hsigns, Attribute.treesOf, Attribute.trees]

/-- A block is taken from tokens that it reaches over, from the first to the last. -/
theorem exists_span_of_take (h : take ts = some (b, rest)) :
    ∃ front, ts = front ++ rest ∧ front ≠ [] ∧ b.span = spanOf front := by
  obtain ⟨t, u, ht, hu, hspan⟩ := exists_head_of_take h
  obtain ⟨outer, inner, words, ts₁, ts₂, content, houter, -, -, hwords, -, hbody⟩ :=
    exists_of_take h
  obtain ⟨front, rfl⟩ := (hbody.trans (suffix_of_readBy hwords)).trans
    (Attribute.takesFront_takeOuter _ _ _ houter)
  have hlast : b.trees.getLast? = some (.group .brace _ b.bodySpan) := List.getLast?_concat
  have hne : front ++ [.group .brace content b.bodySpan] ≠ [] :=
    List.append_ne_nil_of_right_ne_nil _ (List.cons_ne_nil _ _)
  rw [List.append_cons, List.head?_append_of_ne_nil _ hne] at hu
  refine ⟨front ++ [.group .brace content b.bodySpan], List.append_cons _ _ _, hne, ?_⟩
  rw [span, spanOf_eq ht hlast, spanOf_eq hu List.getLast?_concat, hspan]
  rfl

end ImplBlock

/-! ## Blocks of a file -/

namespace TokenTree

/-- Tokens at the end of some tokens, or at the end of what is in a group among them. -/
inductive EndsIn (us : List TokenTree) : List TokenTree → Prop
  | here {ts : List TokenTree} (h : us <:+ ts) : EndsIn us ts
  | inside {ts content : List TokenTree} {d : Delimiter} {s : Span}
    (hgroup : .group d content s ∈ ts) (h : EndsIn us content) : EndsIn us ts

variable {us ts : List TokenTree}

theorem EndsIn.of_suffix {ts' : List TokenTree} (h : EndsIn us ts') (hts : ts' <:+ ts) :
    EndsIn us ts := by
  cases h with
  | here h => exact .here (h.trans hts)
  | inside hgroup h => exact .inside (hts.subset hgroup) h

theorem EndsIn.inRow (h : EndsIn us ts) (hts : InRow ts) : InRow us := by
  induction h with
  | here h =>
    obtain ⟨front, rfl⟩ := h
    exact (inRow_append.mp hts).2.1
  | inside hgroup h ih =>
    have hplaced := hts.isPlaced hgroup
    rw [IsPlaced] at hplaced
    exact ih hplaced.2.2

theorem EndsIn.places_subset (h : EndsIn us ts) : placesOf us ⊆ placesOf ts := by
  induction h with
  | here h =>
    obtain ⟨front, rfl⟩ := h
    rw [placesOf_append]
    exact List.subset_append_right _ _
  | inside hgroup h ih =>
    intro s hs
    refine mem_placesOf.mpr ⟨_, hgroup, ?_⟩
    rw [places]
    exact List.mem_cons_of_mem _ (ih hs)

end TokenTree

namespace Item

theorem mem_locatedAll {items : List Item} {p : List String × ImplBlock} :
    p ∈ locatedAll items ↔ ∃ i ∈ items, p ∈ i.located := by
  induction items with
  | nil => simp [locatedAll]
  | cons i items ih => simp [locatedAll, ih]

theorem takesFront_takeModuleHead : TakesFront takeModuleHead := by
  refine takesFront_bind Attribute.takesFront_takeOuter fun _ => ?_
  refine takesFront_bind (takesFront_piece _) fun _ => ?_
  refine takesFront_bind (takesFront_wordWhere _) fun name => ?_
  refine takesFront_bind (takesFront_ahead _) fun b => ?_
  split
  · exact fun _ _ _ h => nomatch h
  · exact takesFront_pure name

/-- One item, with the modules in it nested at most so deep. -/
def takeItem (n : Nat) : Take Item := fun ts =>
  match ImplBlock.take ts with
  | some (b, rest) => some (.block b, rest)
  | none =>
    match takeModuleHead ts with
    | some (name, rest) =>
      (Take.within .brace (do
        let _ ← Attribute.takeInner
        takeItems n) rest).map fun r => (.module name.text r.1.1, r.2)
    | none => (readBy (.seq outerAttributes (.rule .item)) ts).map fun r => (.other, r.2)

theorem takeItems_succ (n : Nat) : takeItems (n + 1) = many (never atEnd) (takeItem n) := by
  rw [takeItems]
  rfl

variable {n : Nat} {ts rest : List TokenTree}

/-- An item at the front is a block, or a module whose items are in a group, or holds no block. -/
theorem cases_of_takeItem {i : Item} (h : takeItem n ts = some (i, rest)) :
    rest <:+ ts ∧
      ((∃ b, i = .block b ∧ ImplBlock.take ts = some (b, rest)) ∨
        (∃ name items content s behind, i = .module name items ∧ .group .brace content s ∈ ts ∧
          behind <:+ content ∧ takeItems n behind = some (items, [])) ∨
        i = .other) := by
  unfold takeItem at h
  split at h
  · rename_i hblock
    cases h
    exact ⟨ImplBlock.takesFront_take _ _ _ hblock, .inl ⟨_, rfl, hblock⟩⟩
  · split at h
    · rename_i name _ hhead
      obtain ⟨⟨⟨items, s⟩, rest'⟩, hwithin, heq⟩ := Option.map_eq_some_iff.mp h
      cases heq
      obtain ⟨content, rfl, hcontent⟩ := (within_eq_some_iff _ _ _ _ _ _).mp hwithin
      obtain ⟨⟨inner, behind⟩, hinner, hitems⟩ := Option.bind_eq_some_iff.mp hcontent
      have hsuffix := takesFront_takeModuleHead _ _ _ hhead
      refine ⟨(List.suffix_cons _ _).trans hsuffix, .inr (.inl ?_)⟩
      exact ⟨name.text, items, content, s, behind, rfl, hsuffix.subset List.mem_cons_self,
        Attribute.takesFront_takeInner _ _ _ hinner, hitems⟩
    · obtain ⟨r, hr, heq⟩ := Option.map_eq_some_iff.mp h
      cases heq
      exact ⟨suffix_of_readBy hr, .inr (.inr rfl)⟩

/-- Each block among some items is taken from the tokens of the items, or from what is in a group
among them. -/
theorem exists_of_takeItems {items : List Item} (h : takeItems n ts = some (items, rest)) :
    ∀ p ∈ locatedAll items, ∃ us behind, EndsIn us ts ∧ ImplBlock.take us = some (p.2, behind) := by
  induction n generalizing ts rest items with
  | zero => cases h
  | succ n ih =>
    rw [takeItems_succ] at h
    intro p hp
    obtain ⟨i, hi, hp⟩ := mem_locatedAll.mp hp
    obtain ⟨us, behind, hus, hread⟩ :=
      exists_of_many (fun _ _ _ hread => (cases_of_takeItem hread).1) h i hi
    obtain ⟨-, hcases⟩ := cases_of_takeItem hread
    rcases hcases with ⟨b, rfl, hblock⟩ | ⟨name, items', content, s, vs, rfl, hgroup, hvs, hitems⟩ | rfl
    · rw [located, List.mem_singleton] at hp
      rw [hp]
      exact ⟨us, behind, .here hus, hblock⟩
    · rw [located] at hp
      obtain ⟨q, hq, rfl⟩ := List.mem_map.mp hp
      obtain ⟨ws, behind', hws, hblock⟩ := ih hitems q hq
      exact ⟨ws, behind', .inside (hus.subset hgroup) (hws.of_suffix hvs), hblock⟩
    · rw [located] at hp
      exact absurd hp List.not_mem_nil

end Item

/-! ## Texts -/

namespace Lexer

theorem JoinsPlaces.join {cs : List Char} {s t : Span} (hs : JoinsPlaces cs s)
    (ht : JoinsPlaces cs t) : JoinsPlaces cs (s.join t) := by
  obtain ⟨a, b, rfl, ha, hb⟩ := hs
  obtain ⟨c, d, rfl, hc, hd⟩ := ht
  refine ⟨a.min c, b.max d, rfl, ?_, ?_⟩
  · rcases Position.min_cases a c with ⟨-, h⟩ | ⟨-, h⟩ <;> rw [h] <;> assumption
  · rcases Position.max_cases b d with ⟨-, h⟩ | ⟨-, h⟩ <;> rw [h] <;> assumption

end Lexer

namespace ImplBlock

/-- A block stands in a text. It is taken from some of the text's tokens, perhaps in a group among
them, and reaches from the first of these to the last, which is from one place in the text to
another; and all its parts are in between. -/
structure StandsIn (cs : List Char) (b : ImplBlock) : Prop where
  source : ∃ ts front behind, Lexer.tokens cs = some ts ∧ EndsIn (front ++ behind) ts ∧
    take (front ++ behind) = some (b, behind) ∧ b.span = spanOf front
  span : Lexer.JoinsPlaces cs b.span
  parts : b.LiesIn b.span

/-- What is taken as a block among the tokens of a text stands in it. -/
theorem standsIn_of_take {cs : List Char} {ts us behind : List TokenTree} {b : ImplBlock}
    (hts : Lexer.tokens cs = some ts) (hus : EndsIn us ts) (h : take us = some (b, behind)) :
    b.StandsIn cs := by
  obtain ⟨hrow, hplaces⟩ := Lexer.inRow_of_tokens hts
  obtain ⟨front, rfl, hne, hspan⟩ := exists_span_of_take h
  refine ⟨⟨ts, front, behind, hts, hus, h, hspan⟩, ?_, ?_⟩
  · have hjoins : ∀ t ∈ front, Lexer.JoinsPlaces cs t.span := fun t ht =>
      hplaces _ (hus.places_subset (mem_placesOf.mpr
        ⟨t, List.mem_append_left _ ht, span_mem_places t⟩))
    rw [hspan, spanOf_eq (List.head?_eq_some_head hne) (List.getLast?_eq_some_getLast hne)]
    exact (hjoins _ (List.head_mem hne)).join (hjoins _ (List.getLast_mem hne))
  · obtain ⟨front', hfront', hparts⟩ := finds_take (r := b.span) _ b behind h
    obtain rfl : front' = front := List.append_cancel_right hfront'.symm
    refine hparts ?_
    rw [hspan]
    exact (inRow_append.mp (hus.inRow hrow)).1.liesIn

/-- A text that is a block is all its own. -/
theorem standsIn_of_parse? {s : String} {b : ImplBlock} (h : parse? s = some b) :
    b.StandsIn s.toList ∧ ∃ ts, TokenTree.read? s = some ts ∧ b.span = spanOf ts := by
  obtain ⟨ts, hts, hb⟩ := Option.bind_eq_some_iff.mp h
  have htake := all?_eq_some.mp hb
  refine ⟨standsIn_of_take hts (.here (List.suffix_refl ts)) htake, ts, hts, ?_⟩
  obtain ⟨front, rfl, -, hspan⟩ := exists_span_of_take htake
  rw [hspan, List.append_nil]

end ImplBlock

/-- The text that a file's places are in: that without a mark in front, and without the line that
names its interpreter. -/
abbrev SourceFile.textOf (s : String) : List Char := withoutShebang (Text.withoutMark s.toList)

/-- The blocks of a file stand in its text. -/
theorem SourceFile.standsIn_of_parse? {s : String} {f : SourceFile} (h : parse? s = some f) :
    ∀ p ∈ Item.locatedAll f.items, p.2.StandsIn (textOf s) := by
  obtain ⟨ts, hts, hf⟩ := Option.bind_eq_some_iff.mp h
  obtain ⟨items, hitems, heq⟩ := Option.bind_eq_some_iff.mp hf
  cases heq
  intro p hp
  obtain ⟨⟨inner, ts'⟩, hinner, hitems⟩ := Option.bind_eq_some_iff.mp (all?_eq_some.mp hitems)
  obtain ⟨us, behind, hus, hblock⟩ := Item.exists_of_takeItems hitems p hp
  exact ImplBlock.standsIn_of_take hts
    (hus.of_suffix (Attribute.takesFront_takeInner _ _ _ hinner)) hblock

end CommandBot
