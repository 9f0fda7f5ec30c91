import CommandBot.Proofs.ReadingUnit
import CommandBot.Proofs.RenderedUnit
import CommandBot.Proofs.UnplacedCode

/-
  The text of a unit as a source file. The line above the code is a comment, so the file is read off
  the code's own tokens, and these are taken apart as the code without places is. `PiecesRead` says
  what this needs of a bot: that its type, the results of its commands and their documentation are
  read where the code puts them. Plain types and plain documentation are (`IsPlain.piecesRead`);
  documentation from inside a method's body is not.
-/

namespace CommandBot

open TokenTree Template Grammar

/-! ## Pieces that can be read where they stand -/

/-- Documentation that stands before its method, and a value that is read as it prints. -/
structure Attribute.StandsBefore (a : Attribute) : Prop where
  outer : a.isInner = false
  value : ∀ equals value, a.arguments = .assigned equals value →
    readBy expression (unplacedAll value) = some (unplacedAll value, [])

/-- The pieces that a bot brought along are read, in the places they are put in, as they print: its
type, the results of its commands, and their documentation. That they were read where they come from
is not enough: a piece prints the same, but what stands around it is another text. -/
structure Dispatcher.PiecesRead (u : Dispatcher) : Prop where
  sourceType : ∀ plus, ReadsAsType plus u.sourceType.unplaced.trees
  results : ∀ h ∈ u.handlers, ReadsAsResult h.unplaced.result.trees
  docs : ∀ h ∈ u.handlers, ∀ a ∈ h.docs, a.StandsBefore

theorem Word.isName_unplaced {w : Word} (h : isName (.word w) = true) :
    isName (.word w.unplaced) = true := by
  rw [← unplaced_name, Grammar.isName_unplaced, h]

/-- Documentation before its method that is no expression, a single literal, or what a macro makes. -/
def Attribute.isPlain (a : Attribute) : Bool :=
  !a.isInner &&
    match a.arguments with
    | .assigned _ [.literal _ _] => true
    | .assigned _ [.word w, .mark '!' .alone _, .group _ _ _] => isName (.word w)
    | .assigned _ _ => false
    | _ => true

theorem Attribute.standsBefore_of_isPlain {a : Attribute} (h : a.isPlain = true) :
    a.StandsBefore := by
  rw [isPlain, Bool.and_eq_true, Bool.not_eq_true'] at h
  refine ⟨h.1, fun equals value hcase => ?_⟩
  have hvalue := h.2
  rw [hcase] at hvalue
  split at hvalue
  · rename_i text s heq
    obtain ⟨-, rfl⟩ := Arguments.assigned.inj heq
    rw [unplacedAll_cons, unplaced_literal, unplacedAll_nil]
    exact Attribute.readBy_literal text .generated
  · rename_i w s d content e heq
    obtain ⟨-, rfl⟩ := Arguments.assigned.inj heq
    rw [unplacedAll_cons, unplacedAll_cons, unplacedAll_cons, unplacedAll_nil, unplaced_name,
      unplaced_mark, unplaced_group]
    exact readBy_macroCall (Word.isName_unplaced hvalue) d _ .generated .generated
  · cases hvalue
  · rename_i hnot
    exact absurd rfl (hnot equals value)

/-- What most bots are: plain types, and documentation that is plain. -/
structure Dispatcher.IsPlain (u : Dispatcher) : Prop where
  sourceType : PlainType u.sourceType.unplaced.trees
  results : ∀ h ∈ u.handlers, PlainType h.result.unplaced.trees
  docs : ∀ h ∈ u.handlers, ∀ a ∈ h.docs, a.isPlain = true

theorem Dispatcher.IsPlain.piecesRead {u : Dispatcher} (h : u.IsPlain) : u.PiecesRead := by
  refine ⟨h.sourceType.readsAsType, fun handler hmem => ?_, fun handler hmem a ha => ?_⟩
  · have hresult : handler.unplaced.result = handler.result.unplaced := by
      rw [Handler.result, Handler.result, WrittenType.unplaced, unplacedAll_eq_map, List.map_drop,
        ← unplacedAll_eq_map]
      rfl
    rw [hresult]
    exact .of_type ((h.results handler hmem).readsAsType true)
  · exact Attribute.standsBefore_of_isPlain (h.docs handler hmem a ha)

/-- No word of the language begins as a dispatcher's name does. -/
theorem Declaration.isName_unitName (d : Declaration) : isName (made d.unitName) = true := by
  have hkeywords : keywords.all (fun k => k.toList.head? != some 'M') = true := by decide
  rw [made, isName, Bool.not_eq_true', List.contains_eq_mem, decide_eq_false_iff_not]
  intro hmem
  have hhead := List.all_eq_true.mp hkeywords _ hmem
  have hM : (Word.made d.unitName).text.toList.head? = some 'M' := by
    show ("Magicord" ++ d.name.bare).toList.head? = some 'M'
    rw [String.toList_append]
    rfl
  rw [hM] at hhead
  cases hhead

theorem Attribute.readsBack_unplaced {a : Attribute} (ha : a.IsLegible) (hdoc : a.isDoc = true)
    (h : a.StandsBefore) : a.unplaced.ReadsBack where
  signs := by
    rcases ha.signs with hsigns | hsigns
    · have houter := h.outer
      rw [isInner, hsigns] at houter
      cases houter
    · exact hsigns
  path := by
    have hpath := hdoc
    unfold isDoc isNamed at hpath
    split at hpath
    · rename_i w hw
      refine ⟨w.unplaced, ?_, ?_⟩
      · rw [Attribute.unplaced, hw, unplacedAll_cons, unplacedAll_nil, unplaced_name]
      · rw [Word.unplaced, eq_of_beq hpath]
        decide
    · cases hpath
  arguments := by
    have hvalue := h.value
    have harguments := ha.arguments
    obtain ⟨signs, path, arguments, s⟩ := a
    cases arguments with
    | absent => trivial
    | listed d content s => trivial
    | assigned equals value => exact ⟨harguments.2.1, hvalue equals value rfl⟩

/-- A type with segments begins with the name of one or with `::`. -/
theorem WrittenType.plain_of_lastSegment? {t : WrittenType} (hsegment : t.lastSegment? ≠ none)
    (z : List TokenTree) :
    lifetimeAhead (t.trees ++ z) = false ∧ wordAhead "mut" (t.trees ++ z) = false := by
  obtain ⟨ts⟩ := t
  cases ts with
  | nil => exact absurd rfl hsegment
  | cons t rest =>
    cases t with
    | literal text s => exact ⟨rfl, rfl⟩
    | group d content s => exact ⟨rfl, rfl⟩
    | word v =>
      refine ⟨rfl, ?_⟩
      by_contra hmut
      have htext : v.text = "mut" := by
        simpa [wordAhead, first, isWord] using hmut
      refine hsegment ?_
      obtain ⟨text, s⟩ := v
      cases htext
      rfl
    | mark c spacing s =>
      refine ⟨?_, rfl⟩
      by_contra hlifetime
      have hquote : c = '\'' := by
        unfold lifetimeAhead at hlifetime
        split at hlifetime
        · rename_i heq
          exact (TokenTree.mark.inj (List.cons.inj heq).1).1
        · exact absurd rfl hlifetime
      subst hquote
      cases spacing <;> exact hsegment rfl

theorem Handler.readsBack_unplaced {c : Command} {t : WrittenType} (howner : c.owner = t)
    (hsound : fault? c.signature = none) (hsignature : c.signature.IsLegible)
    (hdocs : ∀ a ∈ c.docs, a.IsLegible ∧ a.isDoc = true)
    (htype : ReadsAsType true t.unplaced.trees)
    (hresult : ReadsAsResult (ofSound c).unplaced.result.trees)
    (hstand : ∀ a ∈ c.docs, a.StandsBefore) : (ofSound c).unplaced.ReadsBack where
  name := Word.isName_unplaced hsignature.isName
  owner := by
    intro owner h
    have hdelegate : (ofSound c).unplaced.delegate = if (splitReceiver (parameters c.signature)).1.isSome
        then .instance_ else .associated c.owner.unplaced := by
      rw [Handler.unplaced, ofSound]
      dsimp only
      split <;> rfl
    rw [hdelegate, howner] at h
    split at h
    · cases h
    · cases h
      exact htype
  output := by
    obtain ⟨r, hr⟩ := exists_output hsound
    have htrees : (ofSound c).unplaced.output = arrow ++ r.2.unplaced.trees := by
      show unplacedAll c.signature.outputTrees = _
      rw [Signature.outputTrees, hr, unplacedAll_append, hsignature.arrow r hr]
      rfl
    rw [result, htrees]
    rfl
  result := hresult
  docs := by
    intro a ha
    obtain ⟨b, hb, rfl⟩ := List.mem_map.mp ha
    exact Attribute.readsBack_unplaced (hdocs b hb).1 (hdocs b hb).2 (hstand b hb)

theorem Dispatcher.readsBack_unplaced {d : Declaration} {token : TokenSource} (hd : d.IsLegible)
    (hsound : ∀ c ∈ d.commands, Handler.fault? c.signature = none)
    (h : (ofSound d token).PiecesRead) : (ofSound d token).unplaced.ReadsBack where
  name := d.isName_unitName
  sourceType := h.sourceType
  plain := by
    intro z
    have hsegment : d.selfType.lastSegment? ≠ none := by
      intro hnone
      have hname := hd.nameOf
      unfold Declaration.nameOf at hname
      rw [hnone] at hname
      cases hname
    refine WrittenType.plain_of_lastSegment? (t := d.selfType.unplaced) ?_ z
    rw [WrittenType.lastSegment?_unplaced]
    exact fun hnone => hsegment (Option.map_eq_none_iff.mp hnone)
  handlers := by
    intro handler hmem
    obtain ⟨placed, hplaced, rfl⟩ := List.mem_map.mp hmem
    obtain ⟨c, hc, rfl⟩ := List.mem_map.mp hplaced
    exact Handler.readsBack_unplaced (hd.owners c hc) (hsound c hc) (hd.signatures c hc)
      (hd.docs c hc) (h.sourceType true) (h.results _ hplaced) (h.docs _ hplaced)
  arms := by
    intro a ha
    obtain ⟨placed, hplaced, rfl⟩ := List.mem_map.mp ha
    obtain ⟨handler, hmem, rfl⟩ := List.mem_map.mp hplaced
    obtain ⟨c, hc, rfl⟩ := List.mem_map.mp hmem
    exact Word.isName_unplaced (hd.signatures c hc).isName

/-! ## The file -/

/-- A struct: its name, and its fields with their types. -/
structure Struct where
  name : Word
  fields : List (Word × WrittenType)

namespace Struct

def takeField : Take (Word × WrittenType) := do
  let _ ← Take.piece outerAttributes
  let _ ← Take.piece visibility
  let name ← Take.wordWhere isName
  let _ ← Take.piece (op ":")
  let type ← WrittenType.take true
  let _ ← Take.piece (.ifAhead atEnd .nothing (op ","))
  return (name, type)

/-- A struct without parameters whose fields have names. -/
def take : Take Struct := do
  let _ ← Attribute.takeOuter
  let _ ← Take.piece (.seq visibility (word "struct"))
  let name ← Take.wordWhere isName
  let (fields, _) ← Take.within .brace (Take.many (never atEnd) takeField)
  return ⟨name, fields⟩

def unplaced (s : Struct) : Struct :=
  ⟨s.name.unplaced, s.fields.map fun f => (f.1.unplaced, f.2.unplaced)⟩

theorem forgets_takeField : Take.Forgets (fun f => (f.1.unplaced, f.2.unplaced)) takeField takeField := by
  refine Take.forgets_bind (Take.forgets_piece (by simp)) fun _ => ?_
  refine Take.forgets_bind (Take.forgets_piece (by simp)) fun _ => ?_
  refine Take.forgets_bind (Take.forgets_wordWhere isName_unplaced) fun name => ?_
  refine Take.forgets_bind (Take.forgets_piece (by simp)) fun _ => ?_
  refine Take.forgets_bind (WrittenType.forgets_take true) fun type => ?_
  refine Take.forgets_bind (Take.forgets_piece (by simp)) fun _ => ?_
  exact Take.forgets_pure (name, type)

theorem forgets_take : Take.Forgets unplaced take take := by
  refine Take.forgets_bind Attribute.forgets_takeOuter fun _ => ?_
  refine Take.forgets_bind (Take.forgets_piece (by simp)) fun _ => ?_
  refine Take.forgets_bind (Take.forgets_wordWhere isName_unplaced) fun name => ?_
  refine Take.forgets_bind (Take.forgets_within .brace (Take.forgets_many (by simp) forgets_takeField))
    fun r => ?_
  exact Take.forgets_pure (⟨name, r.1⟩ : Struct)

end Struct

/-- The type of a dispatcher: one field, which is the bot. -/
def Dispatcher.struct (u : Dispatcher) : Struct := ⟨.made u.name, [(.made "bot", u.sourceType)]⟩

theorem Dispatcher.take_structTrees {u : Dispatcher} (h : u.ReadsBack) (z : List TokenTree) :
    Struct.take (u.structTrees ++ z) = some (u.struct, z) := by
  have htype : WrittenType.take true (u.sourceType.trees ++ comma) = some (u.sourceType, comma) :=
    Take.bind_of_eq (h.sourceType true _ comma (Signature.depth_le_append _ _) rfl)
  have hfield : Struct.takeField (u.fieldTrees ++ comma) =
      some ((.made "bot", u.sourceType), []) := by
    refine (Take.bind_of_eq (a := []) rfl).trans ?_
    refine (Take.bind_of_eq (a := []) rfl).trans ?_
    refine (Take.bind_of_eq (Take.wordWhere_of_eq (by decide))).trans ?_
    refine (Take.bind_of_eq (a := sign ':') rfl).trans ?_
    refine (Take.bind_of_eq htype).trans ?_
    exact Take.bind_of_eq (a := comma) rfl
  have hfields : Take.many (never atEnd) Struct.takeField (u.fieldTrees ++ comma) =
      some ([(.made "bot", u.sourceType)], []) :=
    Take.many_of_eq rfl hfield (Nat.succ_pos _) (Take.many_nil rfl) rfl
  have hwords : Take.piece (.seq visibility (word "struct")) (u.plainStruct ++ z) =
      some (words ["pub", "struct"], made u.name :: (braces (u.fieldTrees ++ comma) ++ z)) := rfl
  refine (Take.bind_of_eq (u.takeOuter_structTrees z)).trans ?_
  refine (Take.bind_of_eq hwords).trans ?_
  refine (Take.bind_of_eq (Take.wordWhere_of_eq h.name)).trans ?_
  exact Take.bind_of_eq (Take.within_of_eq .brace .generated hfields)

namespace CodeUnit

/-- The comment above the code leaves neither a mark nor an interpreter to be skipped. -/
theorem tokens?_render (u : CodeUnit) : SourceFile.tokens? u.render = TokenTree.read? u.render := by
  rw [SourceFile.tokens?, TokenTree.read?, toList_render]
  rfl

theorem exists_tokens?_render {d : Declaration} {u : Dispatcher} (hd : d.Written)
    (hu : (Dispatcher.ofDeclaration d).value = .ok u) :
    ∃ ts, SourceFile.tokens? (ofDispatcher u).render = some ts ∧
      TokenTree.unplacedAll ts = u.unplaced.trees := by
  obtain ⟨ts, hts, hsame⟩ := exists_read?_render hd.isLegible hu
  exact ⟨ts, (tokens?_render _).trans hts, hsame.trans u.unplacedAll_trees⟩

/-- A file of three items, an impl block last and second. -/
theorem exists_items {f : SourceFile} {b e : ImplBlock}
    (h : f.unplaced = ⟨[.other, .block b, .block e]⟩) :
    ∃ b' e', f.items = [.other, .block b', .block e'] ∧ b'.unplaced = b ∧ e'.unplaced = e := by
  obtain ⟨items⟩ := f
  have hitems : items.map Item.unplaced = [.other, .block b, .block e] := congrArg SourceFile.items h
  obtain ⟨i, rest, rfl, hi, hrest⟩ := List.map_eq_cons_iff.mp hitems
  obtain ⟨j, rest, rfl, hj, hrest⟩ := List.map_eq_cons_iff.mp hrest
  obtain ⟨k, rest, rfl, hk, hnone⟩ := List.map_eq_cons_iff.mp hrest
  obtain ⟨b', rfl, hb⟩ := Item.exists_of_unplaced_eq_block hj
  obtain ⟨e', rfl, he⟩ := Item.exists_of_unplaced_eq_block hk
  obtain rfl := Item.eq_of_unplaced_eq_other hi
  obtain rfl := List.map_eq_nil_iff.mp hnone
  exact ⟨b', e', rfl, hb, he⟩

/-- A file that a dispatcher's unit is to be: three items, which are the dispatcher's type, whose one
field is the bot; its methods, in order; and its default value. -/
structure IsFileOf (d : Declaration) (u : Dispatcher) (f : SourceFile) (b e : ImplBlock) : Prop where
  items : f.items = [.other, .block b, .block e]
  struct : ∃ ts s rest, SourceFile.tokens? (ofDispatcher u).render = some ts ∧
    Struct.take ts = some (s, rest) ∧
      s.unplaced = ⟨.made u.name, [(.made "bot", u.sourceType.unplaced)]⟩
  block : b.unplaced = u.unplaced.block
  names : b.methods.map (fun m => m.signature.name.text) =
    ["new", "bot", "run", "run_with"] ++ d.commands.map (fun c => c.name.text) ++ ["on_message"]
  default : e.unplaced = u.unplaced.defaultBlock

variable {d : Declaration} {u : Dispatcher}

/-- The text of a unit is the file it is to be, if the pieces in it can be read. -/
theorem parse?_render_eq_file (hd : d.Written) (hu : (Dispatcher.ofDeclaration d).value = .ok u)
    (h : u.PiecesRead) :
    ∃ f b e, SourceFile.parse? (ofDispatcher u).render = some f ∧ IsFileOf d u f b e := by
  obtain ⟨ts, hts, htrees⟩ := exists_tokens?_render hd hu
  obtain ⟨hsound, token, -, rfl⟩ := (Dispatcher.ofDeclaration_eq_ok_iff d u).mp hu
  have hback := Dispatcher.readsBack_unplaced hd.isLegible hsound h
  have hfile := SourceFile.ofTokens?_unplacedAll ts
  rw [htrees, Dispatcher.ofTokens?_trees hback] at hfile
  obtain ⟨f, hf, hplaces⟩ := Option.map_eq_some_iff.mp hfile.symm
  obtain ⟨b, e, hitems, hb, he⟩ := exists_items hplaces
  have hstruct := Struct.forgets_take ts
  rw [htrees, Dispatcher.trees, List.append_assoc, Dispatcher.take_structTrees hback] at hstruct
  obtain ⟨⟨s, rest⟩, hs, heq⟩ := Option.map_eq_some_iff.mp hstruct.symm
  have hnames : b.methods.map (fun m => m.signature.name.text) =
      (b.unplaced.methods).map fun m => m.signature.name.text := by
    rw [ImplBlock.methods_unplaced, List.map_map]
    rfl
  rw [hb, Dispatcher.methods_block, Dispatcher.names_methods] at hnames
  have hcommands : (Dispatcher.ofSound d token).unplaced.handlers.map (fun h => h.name.text) =
      d.commands.map fun c => c.name.text := by
    rw [Dispatcher.unplaced, Dispatcher.ofSound, List.map_map, List.map_map]
    rfl
  rw [hcommands] at hnames
  refine ⟨f, b, e, ?_, hitems, ⟨ts, s, rest, hts, hs, (Prod.mk.inj heq).1⟩, hb, hnames, he⟩
  rw [SourceFile.parse?, hts, Option.bind_some, hf]

/-- The units of plain bots are files. -/
theorem parse?_render_of_isPlain (hd : d.Written)
    (hu : (Dispatcher.ofDeclaration d).value = .ok u) (h : u.IsPlain) :
    ∃ f b e, SourceFile.parse? (ofDispatcher u).render = some f ∧ IsFileOf d u f b e :=
  parse?_render_eq_file hd hu h.piecesRead

/-- Documentation that a command has inside its body is printed before the handler, where it
documents nothing: the text of such a bot's unit is no source file. -/
theorem exists_parse?_render_eq_none :
    ∃ (d : Declaration) (u : Dispatcher), d.Written ∧ (Dispatcher.ofDeclaration d).value = .ok u ∧
      SourceFile.parse? (ofDispatcher u).render = none := by
  obtain ⟨d, u, hd, hu, htest⟩ := Declaration.exists_written
    ("#[bot(token = \"t\")] impl Greeter \x7b #[prefix_command] fn hello(&self) -> String " ++
      "\x7b #![doc = \"x\"] todo!() \x7d \x7d")
    (fun u => (SourceFile.ofTokens? u.unplaced.trees).isNone) (by decide +kernel)
  obtain ⟨ts, hts, htrees⟩ := exists_tokens?_render hd hu
  have hfile := SourceFile.ofTokens?_unplacedAll ts
  rw [htrees, Option.isNone_iff_eq_none.mp htest] at hfile
  refine ⟨d, u, hd, hu, ?_⟩
  rw [SourceFile.parse?, hts, Option.bind_some]
  exact Option.map_eq_none_iff.mp hfile.symm

end CodeUnit

end CommandBot
