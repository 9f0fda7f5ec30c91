import CommandBot.Emission.Unit
import CommandBot.Proofs.Accepted
import CommandBot.Proofs.Identifiers
import CommandBot.Proofs.LegibleParts

/-
  The text of a unit reads as the code of its dispatcher. What the generator writes by itself is
  readable, and so is what it takes over from a bot that stood in a text; `read?_render` puts the two
  together with the line above them.
-/

namespace CommandBot

open TokenTree Piece Template

/-! ## What the generator writes -/

namespace Literal

theorem rawBody_append {cs : List Char} (hq : '"' ∉ cs) (hr : '\r' ∉ cs) (rest : List Char) :
    rawBody .text 0 (cs ++ '"' :: rest) = some (suffix rest) := by
  induction cs with
  | nil =>
    rw [List.nil_append, rawBody_cons, if_pos ⟨rfl, rfl, Nat.zero_le _⟩]
    rfl
  | cons c cs ih =>
    rw [List.mem_cons, not_or] at hq hr
    rw [List.cons_append, rawBody_cons, if_neg fun h => hq.1 h.1.symm, if_neg fun h => hr.1 h.symm,
      if_pos (by rfl)]
    exact ih hq.2 hr.2

/-- A text without quotes in the quotes of a raw literal is a literal. -/
theorem takes_raw {text : String} (hq : '"' ∉ text.toList) (hr : '\r' ∉ text.toList) :
    Takes scan ("r\"" ++ text ++ "\"").toList := by
  intro rest hrest
  have htext : ("r\"" ++ text ++ "\"").toList ++ rest = 'r' :: '"' :: (text.toList ++ '"' :: rest) := by
    simp
  rw [htext]
  show rawBody .text 0 (text.toList ++ '"' :: rest) = some rest
  rw [rawBody_append hq hr, suffix_of_endsToken hrest]

end Literal

section
variable {s t content : List TokenTree}

@[simp] theorem legible_nil : Legible [] := Grammar.readable_nil

@[simp] theorem legible_append_of (hs : Legible s) : Legible (s ++ t) ↔ Legible t := by
  refine ⟨fun h => ?_, Grammar.readable_append hs⟩
  rw [Legible, piecesOf_append] at h
  exact h.right

theorem legible_grouped (d : Delimiter) : Legible [grouped d content] ↔ Legible content :=
  ⟨Grammar.readable_group, Grammar.readable_of_group .generated⟩

theorem legible_grouped_append (d : Delimiter) :
    Legible ([grouped d content] ++ t) ↔ Legible content ∧ Legible t := by
  constructor
  · intro h
    have hcontent : Legible content := Grammar.readable_group h
    rw [legible_append_of ((legible_grouped d).mpr hcontent)] at h
    exact ⟨hcontent, h⟩
  · rintro ⟨hcontent, ht⟩
    exact Grammar.readable_append ((legible_grouped d).mpr hcontent) ht

@[simp] theorem legible_parens : Legible (parens content) ↔ Legible content :=
  legible_grouped .parenthesis

@[simp] theorem legible_parens_append :
    Legible (parens content ++ t) ↔ Legible content ∧ Legible t :=
  legible_grouped_append .parenthesis

@[simp] theorem legible_brackets : Legible (brackets content) ↔ Legible content :=
  legible_grouped .bracket

@[simp] theorem legible_brackets_append :
    Legible (brackets content ++ t) ↔ Legible content ∧ Legible t :=
  legible_grouped_append .bracket

@[simp] theorem legible_braces : Legible (braces content) ↔ Legible content :=
  legible_grouped .brace

@[simp] theorem legible_braces_append :
    Legible (braces content ++ t) ↔ Legible content ∧ Legible t :=
  legible_grouped_append .brace

end

@[simp] theorem legible_word_cons (w : Word) (t : List TokenTree) :
    Legible (.word w :: t) ↔ Piece.isWord w.text.toList = true ∧ Legible t := by
  rw [Legible, piecesOf_cons, pieces_word]
  exact ⟨fun h => ⟨h.1, h.2.2⟩, fun h => ⟨h.1, .word _ _, h.2⟩⟩

@[simp] theorem legible_made_cons (w : String) (t : List TokenTree) :
    Legible (made w :: t) ↔ Piece.isWord w.toList = true ∧ Legible t :=
  legible_word_cons (.made w) t

@[simp] theorem legible_words {ws : List String} (h : ∀ w ∈ ws, Piece.isWord w.toList = true) :
    Legible (words ws) := by
  induction ws with
  | nil => exact legible_nil
  | cons w ws ih =>
    exact (legible_made_cons w (words ws)).mpr
      ⟨h w List.mem_cons_self, ih fun v hv => h v (List.mem_cons_of_mem _ hv)⟩

@[simp] theorem legible_sign {c : Char} (h : (Lexer.isMarkSign c && c != '\'') = true) :
    Legible (sign c) := by
  rw [Bool.and_eq_true, bne_iff_ne] at h
  exact Grammar.readable_alone h.1 h.2 .generated

/-- An operator of two signs that begin neither a comment nor a lifetime. -/
theorem legible_operator {c d : Char} (hc : Lexer.isMarkSign c = true) (hne : c ≠ '\'')
    (hd : Lexer.isMarkSign d = true) (hne' : d ≠ '\'') (hcomment : c ≠ '/') :
    Legible (operator [c, d]) := by
  show Readable (piecesOf [.mark c .joint .generated, .mark d .alone .generated])
  rw [piecesOf_cons, piecesOf_cons, piecesOf_nil, pieces_mark, pieces_mark]
  exact ⟨hc, .sign hne fun h => absurd h hcomment, hd, .alone hne' _, trivial⟩

@[simp] theorem legible_pathMark : Legible pathMark :=
  legible_operator (by decide) (by decide) (by decide) (by decide) (by decide)

@[simp] theorem legible_arrow : Legible arrow :=
  legible_operator (by decide) (by decide) (by decide) (by decide) (by decide)

@[simp] theorem legible_fatArrow : Legible fatArrow :=
  legible_operator (by decide) (by decide) (by decide) (by decide) (by decide)

@[simp] theorem legible_rootPath {names : List String}
    (h : ∀ n ∈ names, Piece.isWord n.toList = true) : Legible (rootPath names) := by
  refine Grammar.readable_flatMap fun n hn => Grammar.readable_append legible_pathMark ?_
  exact (legible_made_cons n []).mpr ⟨h n hn, legible_nil⟩

@[simp] theorem legible_textLiteral (s : String) : Legible (textLiteral s) := by
  refine Grammar.readable_literal ?_ .generated
  intro rest hrest
  rw [Text.scan_literal, Literal.suffix_of_endsToken hrest]

@[simp] theorem legible_doc {text : String} (hq : '"' ∉ text.toList)
    (hr : '\r' ∉ text.toList) : Legible (doc text) := by
  have hliteral := Grammar.readable_literal (Literal.takes_raw hq hr) .generated
  simp +decide [doc, attributed, hliteral]

/-! ## Dispatchers -/

theorem DispatchTable.legible_armTrees {a : Arm}
    (h : Piece.isWord a.handler.text.toList = true) : Legible (armTrees a) := by
  simp +decide [armTrees, armBody, call, library, dot, comma, h]

theorem DispatchTable.legible_trees {t : DispatchTable}
    (h : ∀ a ∈ t.arms, Piece.isWord a.handler.text.toList = true) : Legible t.trees := by
  have harms : Legible (t.arms.flatMap armTrees) :=
    Grammar.readable_flatMap fun a ha => legible_armTrees (h a ha)
  have hallowance : Legible t.allowance := by
    unfold allowance
    split <;> simp +decide [attributed]
  simp +decide [DispatchTable.trees, matchTrees, otherwise, receiver, call, library, dot, comma,
    methodName, harms, hallowance]

/-- A handler whose parts are tokens that a lexer could have read. -/
structure Handler.IsLegible (h : Handler) : Prop where
  name : Piece.isWord h.name.text.toList = true
  owner : ∀ owner, h.delegate = .associated owner → Legible owner.trees
  output : Legible h.output
  docs : ∀ a ∈ h.docs, Legible a.trees

theorem Handler.IsLegible.trees {h : Handler} (hh : h.IsLegible) :
    Legible h.trees := by
  have hdocs : Legible (Attribute.treesOf h.docs) :=
    Grammar.readable_flatMap hh.docs
  have hevent : Legible (words [if h.forwardsEvent then "event" else "_event"]) := by
    split <;> simp +decide
  have hcall : Legible h.callTrees := by
    have harguments : Legible h.arguments := by
      unfold arguments
      split <;> simp +decide
    unfold callTrees
    split
    · simp +decide [dot, hh.name, harguments]
    · rename_i owner howner
      simp +decide [angles, hh.name, harguments, hh.owner owner howner]
  simp +decide [Handler.trees, receiver, library, comma, hh.name, hh.output, hdocs, hevent, hcall]

/-- A dispatcher whose parts are tokens that a lexer could have read. -/
structure Dispatcher.IsLegible (u : Dispatcher) : Prop where
  name : Piece.isWord u.name.toList = true
  sourceType : Legible u.sourceType.trees
  handlers : ∀ h ∈ u.handlers, h.IsLegible
  arms : ∀ a ∈ u.table.arms, Piece.isWord a.handler.text.toList = true

namespace Dispatcher.IsLegible

variable {u : Dispatcher}

theorem legible_tokenTrees (u : Dispatcher) : Legible u.tokenTrees := by
  unfold tokenTrees
  split <;> simp +decide [call, library, dot, comma]

theorem legible_runTrees : Legible runTrees := by
  simp +decide [runTrees, clientResult, angles, call, library, dot]

theorem structTrees (h : u.IsLegible) : Legible u.structTrees := by
  simp +decide [Dispatcher.structTrees, attributed, comma, h.name, h.sourceType]

theorem newTrees (h : u.IsLegible) : Legible u.newTrees := by
  simp +decide [Dispatcher.newTrees, angles, comma, h.sourceType]

theorem botTrees (h : u.IsLegible) : Legible u.botTrees := by
  simp +decide [Dispatcher.botTrees, receiver, dot, h.sourceType]

theorem runWithTrees (u : Dispatcher) : Legible u.runWithTrees := by
  simp +decide [Dispatcher.runWithTrees, clientResult, angles, call, library, dot, comma,
    legible_tokenTrees]

theorem implTrees (h : u.IsLegible) : Legible u.implTrees := by
  have hhandlers : Legible (u.handlers.flatMap Handler.trees) :=
    Grammar.readable_flatMap fun a ha => (h.handlers a ha).trees
  simp +decide [Dispatcher.implTrees, h.name, h.newTrees, h.botTrees, legible_runTrees,
    runWithTrees, hhandlers, DispatchTable.legible_trees h.arms]

theorem defaultTrees (h : u.IsLegible) : Legible u.defaultTrees := by
  simp +decide [Dispatcher.defaultTrees, h.name]

theorem trees (h : u.IsLegible) : Legible u.trees :=
  Grammar.readable_append (Grammar.readable_append h.structTrees h.implTrees) h.defaultTrees

end Dispatcher.IsLegible

/-! ## Bots that stand in a text -/

/-- A declaration whose parts are tokens that a lexer could have read. -/
structure Declaration.IsLegible (d : Declaration) : Prop where
  nameOf : Declaration.nameOf d.selfType = .ok d.name
  selfType : d.selfType.IsLegible
  owners : ∀ c ∈ d.commands, c.owner = d.selfType
  signatures : ∀ c ∈ d.commands, c.signature.IsLegible
  docs : ∀ c ∈ d.commands, ∀ a ∈ c.docs, a.IsLegible ∧ a.isDoc = true

namespace Declaration

theorem isSound_nameOf {t : WrittenType} {w : Word} (ht : t.IsLegible) (h : nameOf t = .ok w) :
    (Piece.word w.text).IsSound := by
  unfold nameOf at h
  split at h
  · rename_i s hs
    split at h
    · cases h
      exact WrittenType.isSound_lastSegment? ht hs
    · cases h
  · cases h

theorem IsLegible.name {d : Declaration} (h : d.IsLegible) : (Piece.word d.name.text).IsSound :=
  isSound_nameOf h.selfType h.nameOf

theorem isLegible_of_ofBlock {b : ImplBlock} {n : String} {o : Option String} {d : Declaration}
    (hb : b.IsLegible) (h : (ofBlock b n o).value = .ok d) : d.IsLegible := by
  unfold ofBlock at h
  split at h
  · cases h
  · rename_i name hname
    split at h
    · cases h
      have hcommands : ∀ c ∈ commandsOf b, ∃ m ∈ b.methods, c = .ofMethod b.selfType m := by
        intro c hc
        obtain ⟨m, hm, rfl⟩ := List.mem_map.mp hc
        exact ⟨m, (List.mem_filter.mp hm).1, rfl⟩
      refine ⟨hname, hb.selfType, ?_, ?_, ?_⟩
      · intro c hc
        obtain ⟨m, -, rfl⟩ := hcommands c hc
        rfl
      · intro c hc
        obtain ⟨m, hm, rfl⟩ := hcommands c hc
        exact (hb.methods m hm).signature
      · intro c hc a ha
        obtain ⟨m, hm, rfl⟩ := hcommands c hc
        obtain ⟨hmem, hdoc⟩ := List.mem_filter.mp ha
        exact ⟨(hb.methods m hm).attributes a hmem, hdoc⟩
    · cases h

mutual

theorem isLegible_of_ofItem {n : String} {o : Option String} {d : Declaration} :
    ∀ i : Item, i.IsLegible → .ok d ∈ (ofItem n o i).value → d.IsLegible
  | .block b, .block hb, h => by
    rw [ofItem] at h
    split at h
    · rw [Logged.value_bind, Logged.value_pure, List.mem_singleton] at h
      exact isLegible_of_ofBlock hb h.symm
    · exact absurd h List.not_mem_nil
  | .module name items, .module _ hitems, h => by
    rw [ofItem_module] at h
    exact isLegible_of_ofItems items hitems h
  | .other, _, h => by
    rw [ofItem] at h
    exact absurd h List.not_mem_nil

theorem isLegible_of_ofItems {n : String} {o : Option String} {d : Declaration} :
    ∀ items : List Item, (∀ i ∈ items, i.IsLegible) → .ok d ∈ (ofItems n o items).value → d.IsLegible
  | [], _, h => by
    rw [ofItems_nil] at h
    exact absurd h List.not_mem_nil
  | i :: rest, hitems, h => by
    rw [value_ofItems_cons, List.mem_append] at h
    rcases h with h | h
    · exact isLegible_of_ofItem i (hitems i List.mem_cons_self) h
    · exact isLegible_of_ofItems rest (fun j hj => hitems j (List.mem_cons_of_mem _ hj)) h

end

/-- What a bot that stands in a text is found as: in an impl block by itself, in a file, or by its
attribute. -/
inductive Written : Declaration → Prop
  | block {text : String} {b : ImplBlock} {n : String} {o : Option String} {d : Declaration}
    (hparse : ImplBlock.parse? text = some b) (hd : (ofBlock b n o).value = .ok d) : Written d
  | file {text : String} {f : SourceFile} {n : String} {o : Option String} {d : Declaration}
    (hparse : SourceFile.parse? text = some f) (hd : .ok d ∈ (ofFile f n o).value) : Written d
  | expanded {text : String} {args : List TokenTree} {b : ImplBlock} {d : Declaration}
    (hparse : ImplBlock.parse? text = some b) (hd : (ofAttribute args b).value = .ok d) : Written d

theorem Written.isLegible {d : Declaration} (h : d.Written) : d.IsLegible := by
  cases h with
  | block hparse hd => exact isLegible_of_ofBlock (ImplBlock.isLegible_of_parse? hparse) hd
  | file hparse hd =>
    exact isLegible_of_ofItems _ (SourceFile.isLegible_of_parse? hparse) hd
  | expanded hparse hd =>
    unfold ofAttribute at hd
    split at hd
    · cases hd
    · rw [Logged.value_bind, Logged.value_pure] at hd
      cases hblock : (ofBlock _ "" none).value with
      | error f =>
        rw [hblock] at hd
        cases hd
      | ok d' =>
        rw [hblock] at hd
        cases hd
        have hd' := isLegible_of_ofBlock (ImplBlock.isLegible_of_parse? hparse) hblock
        exact ⟨hd'.nameOf, hd'.selfType, hd'.owners, hd'.signatures, hd'.docs⟩

theorem eq_ok_of_toOption {α : Type} {r : Except Fault α} {a : α} (h : r.toOption = some a) :
    r = .ok a := by
  cases r with
  | error f => cases h
  | ok a' => exact congrArg Except.ok (Option.some.inj h)

/-- A bot in a text of its own, given that one is accepted and passes a test. -/
theorem exists_written (text : String) (test : Dispatcher → Bool)
    (h : ((ImplBlock.parse? text).any fun b => (ofBlock b "" none).value.toOption.any fun d =>
      (Dispatcher.ofDeclaration d).value.toOption.any test) = true) :
    ∃ (d : Declaration) (u : Dispatcher),
      d.Written ∧ (Dispatcher.ofDeclaration d).value = .ok u ∧ test u = true := by
  simp only [Option.any_eq_true] at h
  obtain ⟨b, hb, d, hd, u, hu, htest⟩ := h
  exact ⟨d, u, .block hb (eq_ok_of_toOption hd), eq_ok_of_toOption hu, htest⟩

end Declaration

theorem Handler.isLegible_ofSound {c : Command} (howner : c.owner.IsLegible)
    (hsignature : c.signature.IsLegible) (hdocs : ∀ a ∈ c.docs, a.IsLegible ∧ a.isDoc = true) :
    (ofSound c).IsLegible where
  name := hsignature.name
  owner := by
    intro owner h
    have h : (if (splitReceiver (parameters c.signature)).1.isSome then Delegate.instance_
      else .associated c.owner) = .associated owner := h
    split at h
    · cases h
    · cases h
      exact howner
  output := hsignature.output
  docs := fun a ha => (hdocs a ha).1.trees

theorem Dispatcher.isLegible_ofSound {d : Declaration} (h : d.IsLegible) (token : TokenSource) :
    (ofSound d token).IsLegible where
  name := d.isSound_unitName h.name
  sourceType := h.selfType
  handlers := by
    intro handler hmem
    obtain ⟨c, hc, rfl⟩ := List.mem_map.mp hmem
    have howner : c.owner.IsLegible := h.owners c hc ▸ h.selfType
    exact Handler.isLegible_ofSound howner (h.signatures c hc) (h.docs c hc)
  arms := by
    intro a ha
    obtain ⟨handler, hmem, rfl⟩ := List.mem_map.mp ha
    obtain ⟨c, hc, rfl⟩ := List.mem_map.mp hmem
    exact (h.signatures c hc).name

/-! ## The text of a unit -/

namespace Lexer

theorem line_append {cs : List Char} (hline : '\n' ∉ cs) (hreturn : '\r' ∉ cs) (rest : List Char) :
    line (cs ++ '\n' :: rest) = (cs, '\n' :: rest) := by
  induction cs with
  | nil => rw [List.nil_append, line]
  | cons c cs ih =>
    rw [List.mem_cons, not_or] at hline hreturn
    rw [List.cons_append, line, ih hline.2 hreturn.2]
    · rintro rfl
      exact hline.1 rfl
    · rintro - rfl
      exact absurd rfl hreturn.1

/-- What separates tokens is stepped over. -/
theorem lexemesFrom_of_separator {cs rest : List Char} (h : separator cs = some rest) (n : Nat)
    (p : Position) : ∃ q, lexemesFrom (n + 1) p cs = lexemesFrom n q rest := by
  cases cs with
  | nil => cases h
  | cons c cs =>
    refine ⟨p.advance ((c :: cs).take ((c :: cs).length - rest.length)), ?_⟩
    have hnext : next p (c :: cs) = some ([], rest) := by
      unfold next
      rw [h]
    rw [lexemesFrom, hnext]
    · exact Option.map_id_apply
    · exact List.cons_ne_nil c cs

/-- A comment on a line of its own is no token. -/
theorem tokens_comment {cs : List Char} (hline : '\n' ∉ cs) (hreturn : '\r' ∉ cs)
    (code : List Char) :
    ∃ n q, code.length ≤ n ∧
      tokens ('/' :: '/' :: ' ' :: (cs ++ '\n' :: code)) = (lexemesFrom n q code).bind (nest [] []) := by
  have hcomment : separator ('/' :: '/' :: ' ' :: (cs ++ '\n' :: code)) = some ('\n' :: code) := by
    show some (line ((' ' :: cs) ++ '\n' :: code)).2 = _
    have hblank : ∀ {c : Char}, c ≠ ' ' → c ∉ cs → c ∉ ' ' :: cs :=
      fun hne h => List.not_mem_cons_of_ne_of_not_mem hne h
    rw [line_append (hblank (by decide) hline) (hblank (by decide) hreturn)]
  obtain ⟨n, hn, hlength⟩ : ∃ n,
      ('/' :: '/' :: ' ' :: (cs ++ '\n' :: code)).length = n + 1 + 1 ∧ code.length ≤ n := by
    refine ⟨_, by rw [List.length_cons, List.length_cons], ?_⟩
    rw [List.length_cons, List.length_append, List.length_cons]
    omega
  obtain ⟨p, hp⟩ := lexemesFrom_of_separator hcomment (n + 1) .start
  obtain ⟨q, hq⟩ := lexemesFrom_of_separator (show separator ('\n' :: code) = some code from rfl) n p
  refine ⟨n, q, hlength, ?_⟩
  have hlexemes : lexemes ('/' :: '/' :: ' ' :: (cs ++ '\n' :: code)) = lexemesFrom (n + 1 + 1) .start
      ('/' :: '/' :: ' ' :: (cs ++ '\n' :: code)) := by
    rw [← hn]
    rfl
  rw [tokens, hlexemes, hp, hq]

end Lexer

namespace CodeUnit

/-- The text of a unit: a comment on a line of its own, the code, and the end of its line. -/
theorem toList_render (u : CodeUnit) :
    u.render.toList = '/' :: '/' :: ' ' :: ("@generated by magicord; do not edit.".toList ++ '\n' ::
      (TokenTree.charsOf u.trees ++ ['\n'])) := by
  have happend : ∀ a b c : String, (a ++ b ++ c).toList = a.toList ++ (b.toList ++ c.toList) := by
    intro a b c
    rw [String.toList_append, String.toList_append, List.append_assoc]
  have hline : "// @generated by magicord; do not edit.\n".toList =
      '/' :: '/' :: ' ' :: ("@generated by magicord; do not edit.".toList ++ ['\n']) := by
    decide
  have hcode : (TokenTree.display u.trees).toList = TokenTree.charsOf u.trees :=
    String.toList_ofList
  refine (happend _ _ _).trans ?_
  rw [hline, hcode, List.cons_append, List.cons_append, List.cons_append, List.append_assoc]
  rfl

/-- The text of a unit with legible code reads as that code. -/
theorem read?_render_of_legible {u : CodeUnit} (h : Legible u.trees) :
    ∃ ts, TokenTree.read? u.render = some ts ∧
      TokenTree.unplacedAll ts = TokenTree.unplacedAll u.trees := by
  obtain ⟨n, q, hlength, htokens⟩ := Lexer.tokens_comment
    (show '\n' ∉ "@generated by magicord; do not edit.".toList by decide) (by decide)
    (TokenTree.charsOf u.trees ++ ['\n'])
  obtain ⟨ts, hts, hsame⟩ := Lexer.tokens_charsOf h q hlength
  refine ⟨ts, ?_, hsame⟩
  rw [TokenTree.read?, toList_render, htokens, hts]

/-- The text of a dispatcher's unit reads as the dispatcher's code. -/
theorem exists_read?_render {d : Declaration} {u : Dispatcher} (hd : d.IsLegible)
    (hu : (Dispatcher.ofDeclaration d).value = .ok u) :
    ∃ ts, TokenTree.read? (ofDispatcher u).render = some ts ∧
      TokenTree.unplacedAll ts = TokenTree.unplacedAll u.trees := by
  obtain ⟨-, token, -, rfl⟩ := (Dispatcher.ofDeclaration_eq_ok_iff d u).mp hu
  exact read?_render_of_legible (Dispatcher.isLegible_ofSound hd token).trees

/-- The text of a unit reads as the code that the bot's attribute expands to, token by token: no
token is lost, changed, split or merged with another one. -/
theorem read?_render {d : Declaration} {u : Dispatcher} (hd : d.Written)
    (hu : (Dispatcher.ofDeclaration d).value = .ok u) :
    ∃ ts, TokenTree.read? (ofDispatcher u).render = some ts ∧
      TokenTree.unplacedAll ts = TokenTree.unplacedAll u.trees ∧
      ∀ e : Expansion, e.outcome = .ok u →
        TokenTree.unplacedAll ts = TokenTree.unplacedAll e.generated := by
  obtain ⟨-, token, -, rfl⟩ := (Dispatcher.ofDeclaration_eq_ok_iff d u).mp hu
  obtain ⟨ts, hts, hsame⟩ := read?_render_of_legible (u := ofDispatcher (.ofSound d token))
    (Dispatcher.isLegible_ofSound hd.isLegible token).trees
  refine ⟨ts, hts, hsame, fun e he => ?_⟩
  rw [Expansion.generated, he]
  exact hsame

/-- A bot with a documented command, whose result has a lifetime and generic arguments. -/
theorem read?_render_documented :
    ∃ (d : Declaration) (u : Dispatcher), d.Written ∧ (Dispatcher.ofDeclaration d).value = .ok u ∧
      ∃ ts, TokenTree.read? (ofDispatcher u).render = some ts ∧
        TokenTree.unplacedAll ts = TokenTree.unplacedAll u.trees := by
  obtain ⟨d, u, hd, hu, -⟩ := Declaration.exists_written
    ("#[bot(token = \"t\")] impl Greeter \x7b\n/// Says hello.\n" ++
      "#[prefix_command] fn hello(&self) -> Cow<'static, str> \x7b todo!() \x7d \x7d")
    (fun _ => true) (by decide +kernel)
  obtain ⟨ts, hts, hsame, -⟩ := read?_render hd hu
  exact ⟨d, u, hd, hu, ts, hts, hsame⟩

end CodeUnit

end CommandBot
