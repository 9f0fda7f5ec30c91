import CommandBot.Bot.Declaration
import CommandBot.Proofs.Printing

/-
  Types that name a bot. Reading leaves the tokens behind what it takes as they are
  (`suffix_of_readBy`), and the generic arguments of a segment print as nothing only where none are
  written. So a type with a name ends in it (`exists_trees_of_nameOf`), and prints like the name
  only when it is that word alone (`display_eq_iff`).
-/

namespace CommandBot

/-! ## What readers leave -/

namespace Grammar

/-- What is read or taken is at the front; the rest is left as it is. -/
def TakesFront {α : Type} (r : List TokenTree → Option (α × List TokenTree)) : Prop :=
  ∀ ts a rest, r ts = some (a, rest) → rest <:+ ts

theorem takesFront_readOperator (signs : List Char) : TakesFront (readOperator signs) := by
  intro ts p rest hread
  fun_induction readOperator signs ts generalizing p with
  | case1 ts =>
    cases hread
    exact List.suffix_refl _
  | case2 c s rest' =>
    cases hread
    exact List.suffix_cons _ _
  | case3 => cases hread
  | case4 cs c s rest' hcs ih =>
    obtain ⟨r, hr, heq⟩ := Option.map_eq_some_iff.mp hread
    cases heq
    exact (ih _ hr).trans (List.suffix_cons _ _)
  | case5 => cases hread
  | case6 => cases hread

theorem takesFront_readLifetime : TakesFront readLifetime := by
  intro ts p rest hread
  unfold readLifetime at hread
  split at hread
  · cases hread
    exact (List.suffix_cons _ _).trans (List.suffix_cons _ _)
  · cases hread

theorem TakesFront.bind {a b : Reader} (ha : TakesFront a) (hb : TakesFront b)
    {ts p rest : List TokenTree}
    (h : ((a ts).bind fun r => (b r.2).map fun q => (r.1 ++ q.1, q.2)) = some (p, rest)) :
    rest <:+ ts := by
  obtain ⟨r, hr, hmap⟩ := Option.bind_eq_some_iff.mp h
  obtain ⟨q, hq, heq⟩ := Option.map_eq_some_iff.mp hmap
  cases heq
  exact (hb _ _ _ hq).trans (ha _ _ _ hr)

theorem takesFront_loop (test : Ahead) {body : Reader} (h : TakesFront body) (n : Nat) :
    TakesFront (loop test body n) := by
  induction n with
  | zero =>
    intro ts p rest hread
    cases hread
    exact List.suffix_refl _
  | succ n ih =>
    intro ts p rest hread
    rw [loop_succ] at hread
    split at hread
    · exact h.bind ih hread
    · cases hread
      exact List.suffix_refl _

theorem suffix_of_readParameters {one : Reader} (h : TakesFront one) {n : Nat}
    {ts rest : List TokenTree} {ps : List (List TokenTree × List TokenTree)}
    (hread : readParameters one n ts = some (ps, rest)) : rest <:+ ts := by
  induction n generalizing ts ps with
  | zero => cases hread
  | succ n ih =>
    unfold readParameters at hread
    split at hread
    · cases hread
      exact List.suffix_refl _
    · obtain ⟨r, hr, hbehind⟩ := Option.bind_eq_some_iff.mp hread
      have hone := h _ _ _ hr
      split at hbehind
      · rename_i s rest' heq
        obtain ⟨q, hq, hpair⟩ := Option.map_eq_some_iff.mp hbehind
        cases hpair
        rw [heq] at hone
        exact ((ih hq).trans (List.suffix_cons _ _)).trans hone
      · cases hbehind
        exact hone
      · cases hbehind

theorem takesFront_readGenerics {one : Reader} (h : TakesFront one) :
    TakesFront (readGenerics one) := by
  intro ts p rest hread
  unfold readGenerics at hread
  split at hread
  · split at hread
    · rename_i ps spacing' e rest'' hps
      have hsuffix := (List.suffix_cons _ _).trans (suffix_of_readParameters h hps)
      split at hread <;> cases hread <;> exact hsuffix.trans (List.suffix_cons _ _)
    · cases hread
  · cases hread
    exact List.suffix_refl _

theorem takesFront_read {call : Phrase → Reader} (hcall : ∀ name, TakesFront (call name))
    (g : Syntax) : TakesFront (g.read call) := by
  induction g with
  | nothing =>
    intro ts p rest hread
    cases hread
    exact List.suffix_refl _
  | fail => exact fun _ _ _ hread => nomatch hread
  | leaf accepts =>
    intro ts p rest hread
    cases ts with
    | nil => cases hread
    | cons t ts =>
      obtain ⟨q, -, heq⟩ := Option.map_eq_some_iff.mp hread
      cases heq
      exact List.suffix_cons _ _
  | operator signs => exact takesFront_readOperator signs
  | lifetime => exact takesFront_readLifetime
  | inside d content =>
    intro ts p rest hread
    obtain ⟨inner, printed, s, rfl, -, -⟩ := inside_eq_some_iff.mp hread
    exact List.suffix_cons _ _
  | seq a b ha hb => exact fun ts p rest hread => ha.bind hb hread
  | ifAhead test yes no hyes hno =>
    intro ts p rest hread
    rw [read] at hread
    split at hread
    · exact hyes _ _ _ hread
    · exact hno _ _ _ hread
  | whileAhead test body hbody => exact fun ts => takesFront_loop test hbody ts.length ts
  | rule name => exact hcall name
  | writtenUnless test body hbody =>
    intro ts p rest hread
    obtain ⟨r, hr, heq⟩ := Option.map_eq_some_iff.mp hread
    cases heq
    exact hbody _ _ _ hr
  | unlessAlone body hbody =>
    intro ts p rest hread
    obtain ⟨r, hr, heq⟩ := Option.map_eq_some_iff.mp hread
    cases heq
    exact hbody _ _ _ hr
  | parameters one hone => exact takesFront_readGenerics hone

theorem takesFront_readRule (n : Nat) (name : Phrase) : TakesFront (readRule rules n name) := by
  induction n generalizing name with
  | zero => exact fun _ _ _ hread => nomatch hread
  | succ n ih => exact takesFront_read ih (rules name)

theorem suffix_of_readBy {g : Syntax} {ts p rest : List TokenTree}
    (h : readBy g ts = some (p, rest)) : rest <:+ ts :=
  takesFront_read (takesFront_readRule _) g _ _ _ h

theorem leads_inside {call : Phrase → Reader} (d : Delimiter) (content : Syntax) :
    Leads ((Grammar.inside d content).read call) := by
  intro ts p rest hread
  obtain ⟨inner, s, printed, rfl, -, rfl⟩ := inside_eq_some_iff.mp hread
  refine ⟨List.cons_ne_nil _ _, fun q hq => ?_⟩
  rw [head?_piecesOf_cons, TokenTree.pieces_group] at hq ⊢
  exact hq

end Grammar

open Grammar

/-! ## What parts leave -/

namespace Take

variable {α β : Type} {part : Take α}

theorem takesFront_bind {next : α → Take β} (hpart : TakesFront part)
    (hnext : ∀ a, TakesFront (next a)) : TakesFront (part >>= next) := by
  intro ts b rest h
  obtain ⟨⟨a, rest'⟩, ha, hb⟩ := Option.bind_eq_some_iff.mp h
  exact (hnext a _ _ _ hb).trans (hpart _ _ _ ha)

theorem takesFront_pure (a : α) : TakesFront (pure a : Take α) := by
  intro ts b rest h
  cases h
  exact List.suffix_refl _

theorem takesFront_ahead (test : Ahead) : TakesFront (ahead test) := by
  intro ts b rest h
  cases h
  exact List.suffix_refl _

theorem takesFront_piece (g : Syntax) : TakesFront (piece g) := fun _ _ _ h => suffix_of_readBy h

theorem takesFront_wordWhere (test : TokenTree → Bool) : TakesFront (wordWhere test) := by
  intro ts w rest h
  unfold wordWhere at h
  split at h
  · obtain ⟨-, heq⟩ := Option.ite_none_right_eq_some.mp h
    cases heq
    exact List.suffix_cons _ _
  · cases h

theorem takesFront_within (d : Delimiter) (part : Take α) : TakesFront (within d part) := by
  rintro ts ⟨a, s⟩ rest h
  obtain ⟨content, rfl, -⟩ := (within_eq_some_iff d part ts rest a s).mp h
  exact List.suffix_cons _ _

theorem takesFront_many (test : Ahead) (h : TakesFront part) : TakesFront (many test part) := by
  have hall : ∀ n, TakesFront (manyUpTo test part n) := by
    intro n
    induction n with
    | zero => exact takesFront_pure []
    | succ n ih =>
      rw [manyUpTo]
      refine takesFront_bind (takesFront_ahead test) fun b => ?_
      split
      · exact takesFront_bind h fun a => takesFront_bind ih fun rest => takesFront_pure _
      · exact takesFront_pure _
  exact fun ts a rest hmany => hall ts.length ts a rest hmany

end Take

namespace Attribute

open Take

theorem takesFront_take (signs : Syntax) : TakesFront (take signs) :=
  takesFront_bind (takesFront_piece _) fun _ =>
    takesFront_bind (takesFront_within _ _) fun _ => takesFront_pure _

theorem takesFront_takeOuter : TakesFront takeOuter := takesFront_many _ (takesFront_take _)

theorem takesFront_takeInner : TakesFront takeInner := takesFront_many _ (takesFront_take _)

end Attribute

/-! ## Segments -/

namespace WrittenType

/-- Generic arguments print as nothing only where none are written. -/
theorem mayLead_segmentArguments (n : Nat) : MayLead (segmentArguments.read (readRule rules n)) := by
  have hpathMark : MayLead ((maybe "::" : Syntax).read (readRule rules n)) :=
    mayLead_optional _ (leads_op _ (by decide)).mayLead
  have harguments : Leads ((Grammar.rule Phrase.arguments).read (readRule rules n)) := by
    cases n with
    | zero => exact fun _ _ _ hread => nomatch hread
    | succ n => exact leads_seq (leads_op "<" (by decide))
  have hcall : Leads (callTypes.read (readRule rules n)) :=
    leads_seq_right hpathMark (leads_seq (leads_inside _ _))
  intro ts p rest hread
  rw [segmentArguments, Grammar.cases, Grammar.read.eq_def] at hread
  dsimp only at hread
  split at hread
  · exact (leads_seq_right hpathMark harguments).mayLead ts p rest hread
  · exact mayLead_optional callAhead hcall.mayLead ts p rest hread

/-- A segment begins with its word and is that word alone if it has no arguments. -/
theorem exists_of_takeSegment {ts rest : List TokenTree} {s : Segment}
    (h : takeSegment ts = some (s, rest)) :
    ∃ behind, ts = .word s.word :: behind ∧ rest <:+ behind ∧ (s.arguments = [] → rest = behind) := by
  rw [takeSegment, Take.bind_apply] at h
  obtain ⟨⟨w, behind⟩, hw, hnext⟩ := Option.bind_eq_some_iff.mp h
  obtain rfl : ts = .word w :: behind := by
    unfold Take.wordWhere at hw
    split at hw
    · obtain ⟨-, heq⟩ := Option.ite_none_right_eq_some.mp hw
      cases heq
      rfl
    · cases hw
  dsimp only at hnext
  split at hnext
  · cases hnext
    exact ⟨rest, rfl, List.suffix_refl _, fun _ => rfl⟩
  · obtain ⟨⟨arguments, rest'⟩, hread, heq⟩ := Option.bind_eq_some_iff.mp hnext
    cases heq
    refine ⟨behind, rfl, suffix_of_readBy hread, fun hnone => ?_⟩
    rcases mayLead_segmentArguments _ _ _ _ hread with ⟨-, hrest⟩ | ⟨hsome, -⟩
    · exact hrest
    · exact absurd hnone hsome

/-- The segments behind a first one, if there are any, end with the word of the last one, unless it
has arguments. -/
theorem exists_of_manyUpTo {n : Nat} {ts rest : List TokenTree} {ss : List Segment}
    (h : Take.manyUpTo (operatorAhead "::") (do
      let _ ← Take.piece (op "::")
      takeSegment) n ts = some (ss, rest)) :
    (ss = [] → rest = ts) ∧
      ∀ s, ss.getLast? = some s → s.arguments = [] → ∃ before, ts = before ++ .word s.word :: rest := by
  induction n generalizing ts ss with
  | zero =>
    cases h
    exact ⟨fun _ => rfl, fun s hs => nomatch hs⟩
  | succ n ih =>
    rw [Take.manyUpTo_succ] at h
    split at h
    · obtain ⟨⟨s, behind⟩, hpart, hmap⟩ := Option.bind_eq_some_iff.mp h
      obtain ⟨⟨ss', rest'⟩, hrest, heq⟩ := Option.map_eq_some_iff.mp hmap
      cases heq
      obtain ⟨⟨mark, named⟩, hmark, hsegment⟩ := Option.bind_eq_some_iff.mp hpart
      obtain ⟨marks, rfl⟩ := suffix_of_readBy hmark
      obtain ⟨behind', rfl, ⟨arguments, rfl⟩, hbare⟩ := exists_of_takeSegment hsegment
      obtain ⟨hnil, hlast⟩ := ih hrest
      dsimp only at hnil hlast
      refine ⟨(nomatch ·), fun t ht hnone => ?_⟩
      cases ss' with
      | nil =>
        obtain rfl : s = t := Option.some.inj ht
        refine ⟨marks, ?_⟩
        rw [hnil rfl, ← hbare hnone]
      | cons s' ss' =>
        rw [List.getLast?_cons_cons] at ht
        obtain ⟨before, hbefore⟩ := hlast t ht hnone
        refine ⟨marks ++ .word s.word :: (arguments ++ before), ?_⟩
        rw [hbefore]
        simp only [List.append_assoc, List.cons_append]
    · cases h
      exact ⟨fun _ => rfl, fun s hs => nomatch hs⟩

/-- A path whose last segment has no arguments ends in the word of that segment. -/
theorem exists_trees_of_lastSegment? {t : WrittenType} {s : Segment} (h : t.lastSegment? = some s)
    (hnone : s.arguments = []) : ∃ before, t.trees = before ++ [.word s.word] := by
  obtain ⟨ss, hall, hlast⟩ := Option.bind_eq_some_iff.mp h
  rw [Take.all?_eq_some, takeSegments, Take.bind_apply] at hall
  obtain ⟨⟨mark, named⟩, hmark, hall⟩ := Option.bind_eq_some_iff.mp hall
  obtain ⟨⟨first, behind⟩, hfirst, hall⟩ := Option.bind_eq_some_iff.mp hall
  obtain ⟨⟨rest, behind'⟩, hrest, heq⟩ := Option.bind_eq_some_iff.mp hall
  cases heq
  obtain ⟨marks, hmarks⟩ := suffix_of_readBy hmark
  obtain ⟨behind', rfl, ⟨arguments, rfl⟩, hbare⟩ := exists_of_takeSegment hfirst
  obtain ⟨hnil, hfurther⟩ := exists_of_manyUpTo hrest
  cases rest with
  | nil =>
    obtain rfl : first = s := Option.some.inj hlast
    refine ⟨marks, ?_⟩
    rw [← hmarks, ← hbare hnone, hnil rfl]
  | cons s' rest =>
    rw [List.getLast?_cons_cons] at hlast
    obtain ⟨before, hbefore⟩ := hfurther s hlast hnone
    refine ⟨marks ++ .word first.word :: (arguments ++ before), ?_⟩
    rw [← hmarks, hbefore]
    simp only [List.append_assoc, List.cons_append]

end WrittenType

/-! ## Names -/

/-- The name of a bot is the last token of its type. -/
theorem Declaration.exists_trees_of_nameOf {t : WrittenType} {name : Word}
    (h : nameOf t = .ok name) : ∃ before, t.trees = before ++ [.word name] := by
  unfold nameOf at h
  split at h
  · rename_i s hs
    split at h
    · rename_i hnone
      cases h
      exact WrittenType.exists_trees_of_lastSegment? hs (List.isEmpty_iff.mp hnone)
    · cases h
  · cases h

namespace TokenTree

/-- Anything before a word shows in what is printed. -/
theorem length_lt_charsOf {before : List TokenTree} (hbefore : before ≠ []) (w : Word) :
    w.text.length < (charsOf (before ++ [.word w])).length := by
  induction before with
  | nil => exact absurd rfl hbefore
  | cons t before ih =>
    have hrest : w.text.length ≤ (charsOf (before ++ [.word w])).length := by
      cases before with
      | nil =>
        refine Nat.le_of_eq ?_
        rw [List.nil_append, charsOf_singleton, chars, String.length_toList]
      | cons u before => exact Nat.le_of_lt (ih (List.cons_ne_nil _ _))
    obtain ⟨u, rest, hcons⟩ := List.exists_cons_of_ne_nil
      (List.append_ne_nil_of_right_ne_nil before (List.cons_ne_nil (.word w) []))
    have hspaced : 0 < (chars t ++ if isJoint t then [] else [' ']).length := by
      cases t with
      | mark c spacing s => simp [chars]
      | _ => simp [isJoint]
    rw [hcons] at hrest
    rw [List.cons_append, hcons, charsOf_cons_cons, List.length_append]
    omega

end TokenTree

/-- A type prints like the name that it ends in only if it is that word. -/
theorem WrittenType.display_eq_iff {t : WrittenType} {name : Word}
    (h : Declaration.nameOf t = .ok name) : t.display = name.text ↔ t.trees = [.word name] := by
  obtain ⟨before, htrees⟩ := Declaration.exists_trees_of_nameOf h
  rw [display, htrees, TokenTree.display, ← String.toList_inj, String.toList_ofList]
  constructor
  · intro hchars
    cases before with
    | nil => rfl
    | cons u before =>
      have hlt := TokenTree.length_lt_charsOf (List.cons_ne_nil u before) name
      rw [hchars, String.length_toList] at hlt
      exact absurd hlt (Nat.lt_irrefl _)
  · intro hone
    rw [hone, TokenTree.charsOf_singleton, TokenTree.chars]

end CommandBot
