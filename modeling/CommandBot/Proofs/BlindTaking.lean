import CommandBot.Proofs.BlindRules
import CommandBot.Proofs.Taking
import CommandBot.Source.File

/-
  The parts of a file without the places of their tokens. A file is taken apart in the same way
  wherever its tokens stand: `Take.Forgets` says so of one step, holds of steps one after the other,
  and so of attributes, signatures, methods, blocks and whole files (`ofTokens?_unplacedAll`).
-/

namespace CommandBot

open TokenTree Grammar

/-! ## Parts without places -/

def Word.unplaced (w : Word) : Word := .made w.text

def WrittenType.unplaced (t : WrittenType) : WrittenType := ⟨unplacedAll t.trees⟩

def Segment.unplaced (s : Segment) : Segment := ⟨s.word.unplaced, unplacedAll s.arguments⟩

def Arguments.unplaced : Arguments → Arguments
  | .absent => .absent
  | .listed d content _ => .listed d (unplacedAll content) .generated
  | .assigned sign value => .assigned (unplacedAll sign) (unplacedAll value)

def Attribute.unplaced (a : Attribute) : Attribute where
  signs := unplacedAll a.signs
  path := unplacedAll a.path
  arguments := a.arguments.unplaced
  bracketSpan := .generated

def ParameterForm.unplaced : ParameterForm → ParameterForm
  | .receiver reference mutability self annotation =>
    .receiver (unplacedAll reference) (unplacedAll mutability) (unplacedAll self)
      (unplacedAll annotation)
  | .typed pattern type => .typed (unplacedAll pattern) type.unplaced

def Parameter.unplaced (p : Parameter) : Parameter := ⟨unplacedAll p.attributes, p.form.unplaced⟩

namespace Signature

/-- A parameter with the comma behind it. -/
def unplacedInput (p : Parameter × List TokenTree) : Parameter × List TokenTree :=
  (p.1.unplaced, unplacedAll p.2)

/-- The arrow and the type of a result. -/
def unplacedOutput (o : List TokenTree × WrittenType) : List TokenTree × WrittenType :=
  (unplacedAll o.1, o.2.unplaced)

def unplaced (s : Signature) : Signature where
  constness := unplacedAll s.constness
  asyncness := unplacedAll s.asyncness
  unsafety := unplacedAll s.unsafety
  abi := unplacedAll s.abi
  functionWord := unplacedAll s.functionWord
  name := s.name.unplaced
  generics := unplacedAll s.generics
  inputs := s.inputs.map unplacedInput
  variadic := unplacedAll s.variadic
  inputsSpan := .generated
  output := s.output.map unplacedOutput
  clause := unplacedAll s.clause

end Signature

def Method.unplaced (m : Method) : Method where
  attributes := m.attributes.map Attribute.unplaced
  qualifiers := unplacedAll m.qualifiers
  signature := m.signature.unplaced
  statements := unplacedAll m.statements
  bodySpan := .generated

def Member.unplaced : Member → Member
  | .method m => .method m.unplaced
  | .other ts => .other (unplacedAll ts)

namespace ImplBlock

/-- The trait of a block, with what stands around it. -/
def unplacedTrait (t : List TokenTree × WrittenType × List TokenTree) :
    List TokenTree × WrittenType × List TokenTree :=
  (unplacedAll t.1, t.2.1.unplaced, unplacedAll t.2.2)

def unplaced (b : ImplBlock) : ImplBlock where
  attributes := b.attributes.map Attribute.unplaced
  words := unplacedAll b.words
  generics := unplacedAll b.generics
  implemented := b.implemented.map unplacedTrait
  selfType := b.selfType.unplaced
  clause := unplacedAll b.clause
  members := b.members.map Member.unplaced
  bodySpan := .generated

theorem methods_unplaced (b : ImplBlock) : b.unplaced.methods = b.methods.map Method.unplaced := by
  have hmethod : Member.method? ∘ Member.unplaced = fun m => m.method?.map Method.unplaced := by
    funext m
    cases m <;> rfl
  rw [methods, methods, unplaced, List.filterMap_map, hmethod, List.map_filterMap]

end ImplBlock

namespace Item

mutual

def unplaced : Item → Item
  | .block b => .block b.unplaced
  | .module name items => .module name (unplacedItems items)
  | .other => .other

def unplacedItems : List Item → List Item
  | [] => []
  | i :: rest => i.unplaced :: unplacedItems rest

end

theorem unplacedItems_eq_map (items : List Item) : unplacedItems items = items.map unplaced := by
  induction items with
  | nil => rw [unplacedItems]; rfl
  | cons i rest ih => rw [unplacedItems, ih]; rfl

theorem exists_of_unplaced_eq_block {i : Item} {b : ImplBlock} (h : i.unplaced = .block b) :
    ∃ c, i = .block c ∧ c.unplaced = b := by
  cases i with
  | block c => exact ⟨c, rfl, by simpa [unplaced] using h⟩
  | module name items => simp [unplaced] at h
  | other => simp [unplaced] at h

theorem eq_of_unplaced_eq_other {i : Item} (h : i.unplaced = .other) : i = .other := by
  cases i with
  | block c => simp [unplaced] at h
  | module name items => simp [unplaced] at h
  | other => rfl

end Item

def SourceFile.unplaced (f : SourceFile) : SourceFile := ⟨f.items.map Item.unplaced⟩

/-! ## Steps -/

namespace Take

variable {α β α' β' : Type} {f : α → α'} {g : β → β'} {test : Ahead}

/-- On tokens without places the one part gives what the other gives with them. -/
def Forgets (f : α → α') (part' : Take α') (part : Take α) : Prop :=
  ∀ ts, part' (unplacedAll ts) = (part ts).map fun r => (f r.1, unplacedAll r.2)

theorem forgets_pure (a : α) : Forgets f (pure (f a)) (pure a) := fun _ => rfl

theorem forgets_pure_of {a : α} {b : α'} (h : b = f a) : Forgets f (pure b) (pure a) := by
  rw [h]
  exact forgets_pure a

theorem forgets_fail : Forgets f fail fail := fun _ => rfl

theorem forgets_bind {part : Take α} {part' : Take α'} {next : α → Take β} {next' : α' → Take β'}
    (hpart : Forgets f part' part) (hnext : ∀ a, Forgets g (next' (f a)) (next a)) :
    Forgets g (part' >>= next') (part >>= next) := by
  intro ts
  rw [bind_apply, bind_apply, hpart ts]
  cases part ts with
  | none => rfl
  | some r => exact hnext r.1 r.2

theorem forgets_piece {s : Syntax} (h : s.Blind) : Forgets unplacedAll (piece s) (piece s) :=
  readBy_unplacedAll h

theorem forgets_ahead (h : IsBlind test) : Forgets id (ahead test) (ahead test) := by
  intro ts
  rw [ahead_apply, ahead_apply, h ts]
  rfl

theorem forgets_wordWhere {test : TokenTree → Bool} (h : ∀ t : TokenTree, test t.unplaced = test t) :
    Forgets Word.unplaced (wordWhere test) (wordWhere test) := by
  intro ts
  cases ts with
  | nil => rw [unplacedAll_nil]; rfl
  | cons t rest =>
    cases t with
    | word w =>
      have hw := h (.word w)
      rw [unplaced_word] at hw
      rw [unplacedAll_cons, unplaced_word, wordWhere, wordWhere, hw]
      split <;> rfl
    | mark c spacing s => rw [unplacedAll_cons, unplaced_mark]; rfl
    | literal text s => rw [unplacedAll_cons, unplaced_literal]; rfl
    | group d content s => rw [unplacedAll_cons, unplaced_group]; rfl

theorem forgets_within {part : Take α} {part' : Take α'} (d : Delimiter)
    (h : Forgets f part' part) :
    Forgets (fun r => (f r.1, Span.generated)) (within d part') (within d part) := by
  intro ts
  cases ts with
  | nil => rw [unplacedAll_nil]; rfl
  | cons t rest =>
    cases t with
    | group e content s =>
      rw [unplacedAll_cons, unplaced_group]
      simp only [within, h content]
      cases part content with
      | none => split <;> rfl
      | some r =>
        obtain ⟨a, after⟩ := r
        cases after with
        | nil => split <;> simp [unplacedAll_nil]
        | cons t' rest' => split <;> simp [unplacedAll_cons]
    | word w => rw [unplacedAll_cons, unplaced_word]; rfl
    | mark c spacing s => rw [unplacedAll_cons, unplaced_mark]; rfl
    | literal text s => rw [unplacedAll_cons, unplaced_literal]; rfl

theorem forgets_many {part : Take α} {part' : Take α'} (htest : IsBlind test)
    (h : Forgets f part' part) : Forgets (List.map f) (many test part') (many test part) := by
  have hrounds : ∀ n, Forgets (List.map f) (manyUpTo test part' n) (manyUpTo test part n) := by
    intro n
    induction n with
    | zero => exact forgets_pure []
    | succ n ih =>
      rw [manyUpTo, manyUpTo]
      refine forgets_bind (forgets_ahead htest) fun b => ?_
      cases b with
      | false => exact forgets_pure []
      | true => exact forgets_bind h fun a => forgets_bind ih fun rest => forgets_pure (a :: rest)
  intro ts
  rw [many, many, length_unplacedAll]
  exact hrounds ts.length ts

theorem Forgets.all? {part : Take α} {part' : Take α'} (h : Forgets f part' part)
    (ts : List TokenTree) : Take.all? part' (unplacedAll ts) = (Take.all? part ts).map f := by
  unfold Take.all?
  rw [h ts]
  cases part ts with
  | none => rfl
  | some r =>
    obtain ⟨a, after⟩ := r
    cases after with
    | nil => rw [Option.map_some, unplacedAll_nil]; rfl
    | cons t rest => rw [Option.map_some, unplacedAll_cons]; rfl

end Take

open Take

/-! ## Types -/

namespace WrittenType

theorem forgets_take (plus : Bool) : Forgets unplaced (take plus) (take plus) :=
  forgets_bind (forgets_piece trivial) fun p => forgets_pure (⟨p⟩ : WrittenType)

theorem forgets_takeSegment : Forgets Segment.unplaced takeSegment takeSegment := by
  refine forgets_bind (forgets_wordWhere segmentWord_unplaced) fun w => ?_
  have hroot : rootWord [.word w.unplaced] = rootWord [.word w] := by
    have h := rootWord_unplacedAll [.word w]
    rw [unplacedAll_cons, unplacedAll_nil, unplaced_word] at h
    exact h
  rw [hroot]
  split
  · exact forgets_pure (⟨w, []⟩ : Segment)
  · refine forgets_bind (forgets_piece ?_) fun p => forgets_pure (⟨w, p⟩ : Segment)
    simp [segmentArguments, Grammar.cases]

theorem forgets_takeSegments : Forgets (List.map Segment.unplaced) takeSegments takeSegments :=
  forgets_bind (forgets_piece (by simp)) fun _ =>
    forgets_bind forgets_takeSegment fun s =>
      forgets_bind
        (forgets_many (by simp)
          (forgets_bind (forgets_piece (by simp)) fun _ => forgets_takeSegment))
        fun rest => forgets_pure (s :: rest)

theorem lastSegment?_unplaced (t : WrittenType) :
    t.unplaced.lastSegment? = t.lastSegment?.map Segment.unplaced := by
  unfold lastSegment?
  rw [unplaced, forgets_takeSegments.all? t.trees]
  cases Take.all? takeSegments t.trees with
  | none => rfl
  | some ss => exact List.getLast?_map

end WrittenType

/-! ## Attributes -/

namespace Attribute

theorem forgets_takeContent :
    Forgets (fun r => (unplacedAll r.1, r.2.unplaced)) takeContent takeContent := by
  refine forgets_bind (forgets_piece (by simp)) fun path => ?_
  refine forgets_bind (f := Arguments.unplaced) ?_ fun a => forgets_pure (path, a)
  intro ts
  have hassigned : Forgets Arguments.unplaced
      (do
        let sign ← Take.piece (op "=")
        let value ← Take.piece Grammar.expression
        pure (.assigned sign value))
      (do
        let sign ← Take.piece (op "=")
        let value ← Take.piece Grammar.expression
        pure (.assigned sign value)) :=
    forgets_bind (forgets_piece (by simp)) fun sign =>
      forgets_bind (forgets_piece (by simp)) fun value => forgets_pure (Arguments.assigned sign value)
  cases ts with
  | nil => rw [unplacedAll_nil]; rfl
  | cons t rest =>
    have hts := hassigned (t :: rest)
    rw [unplacedAll_cons] at hts ⊢
    cases t with
    | group d content s =>
      cases rest with
      | nil => rw [unplaced_group, unplacedAll_nil]; rfl
      | cons t' rest' => rw [unplaced_group, unplacedAll_cons] at hts ⊢; exact hts
    | word w => rw [unplaced_word] at hts ⊢; exact hts
    | mark c spacing s => rw [unplaced_mark] at hts ⊢; exact hts
    | literal text s => rw [unplaced_literal] at hts ⊢; exact hts

theorem forgets_take {s : Syntax} (h : s.Blind) : Forgets unplaced (take s) (take s) :=
  forgets_bind (forgets_piece h) fun signs =>
    forgets_bind (forgets_within .bracket forgets_takeContent) fun r =>
      forgets_pure (⟨signs, r.1.1, r.1.2, r.2⟩ : Attribute)

theorem forgets_takeOuter : Forgets (List.map unplaced) takeOuter takeOuter :=
  forgets_many (by simp) (forgets_take (by simp))

theorem forgets_takeInner : Forgets (List.map unplaced) takeInner takeInner :=
  forgets_many (by simp) (forgets_take (by simp))

end Attribute

/-! ## Signatures -/

namespace Signature

theorem forgets_takeReceiver : Forgets ParameterForm.unplaced takeReceiver takeReceiver := by
  refine forgets_bind (forgets_piece (by simp [receiverReference])) fun reference => ?_
  refine forgets_bind (forgets_piece (by simp)) fun mutability => ?_
  refine forgets_bind (forgets_piece (by simp)) fun self => ?_
  rw [isEmpty_unplacedAll]
  split
  · exact forgets_bind (forgets_piece (by simp [ receiverAnnotation])) fun annotation =>
      forgets_pure (ParameterForm.receiver reference mutability self annotation)
  · exact forgets_bind (f := unplacedAll) (forgets_pure []) fun annotation =>
      forgets_pure (ParameterForm.receiver reference mutability self annotation)

/-- What is taken of the parameters of a function. -/
abbrev unplacedInputs (r : List (Parameter × List TokenTree) × List TokenTree) :
    List (Parameter × List TokenTree) × List TokenTree :=
  (r.1.map unplacedInput, unplacedAll r.2)

theorem forgets_takeInputs (n : Nat) (isFirst : Bool) :
    Forgets unplacedInputs (takeInputs n isFirst) (takeInputs n isFirst) := by
  induction n generalizing isFirst with
  | zero => exact forgets_fail
  | succ n ih =>
    have hcomma : (Grammar.ifAhead atEnd .nothing (op ",") : Syntax).Blind := by simp
    rw [takeInputs]
    refine forgets_bind (forgets_ahead (by simp)) fun b => ?_
    cases b with
    | true => exact forgets_pure ([], [])
    | false =>
    refine forgets_bind (forgets_piece (by simp)) fun attributes => ?_
    refine forgets_bind (forgets_ahead (by simp)) fun b => ?_
    cases b with
    | true =>
      refine forgets_bind (forgets_piece (by simp)) fun dots => ?_
      refine forgets_bind (forgets_piece hcomma) fun comma => forgets_pure_of ?_
      simp [unplacedInputs, unplacedAll_append]
    | false =>
    refine forgets_bind (forgets_ahead (by simp)) fun b => ?_
    cases b with
    | true =>
      refine forgets_bind forgets_takeReceiver fun form => ?_
      cases isFirst with
      | false => exact forgets_fail
      | true =>
        refine forgets_bind (forgets_piece hcomma) fun after => ?_
        exact forgets_bind (ih false) fun r =>
          forgets_pure ((⟨attributes, form⟩, after) :: r.1, r.2)
    | false =>
    refine forgets_bind (forgets_piece (by simp [parameterPattern])) fun pattern => ?_
    refine forgets_bind (forgets_ahead (by simp)) fun b => ?_
    cases b with
    | true =>
      refine forgets_bind (forgets_piece (by simp)) fun dots => ?_
      refine forgets_bind (forgets_piece hcomma) fun comma => forgets_pure_of ?_
      simp [unplacedInputs, unplacedAll_append]
    | false =>
      refine forgets_bind (WrittenType.forgets_take true) fun type => ?_
      refine forgets_bind (forgets_piece hcomma) fun after => ?_
      exact forgets_bind (ih false) fun r =>
        forgets_pure ((⟨attributes, .typed pattern type⟩, after) :: r.1, r.2)

theorem forgets_takeOutput : Forgets (Option.map unplacedOutput) takeOutput takeOutput := by
  refine forgets_bind (forgets_ahead (by simp)) fun b => ?_
  cases b with
  | false => exact forgets_pure none
  | true =>
    exact forgets_bind (forgets_piece (by simp)) fun arrow =>
      forgets_bind (WrittenType.forgets_take true) fun type => forgets_pure (some (arrow, type))

theorem forgets_take : Forgets unplaced take take := by
  refine forgets_bind (forgets_piece (by simp)) fun constness => ?_
  refine forgets_bind (forgets_piece (by simp)) fun asyncness => ?_
  refine forgets_bind (forgets_piece (by simp)) fun unsafety => ?_
  refine forgets_bind (forgets_piece (by simp)) fun abi => ?_
  refine forgets_bind (forgets_piece (by simp)) fun functionWord => ?_
  refine forgets_bind (forgets_wordWhere isName_unplaced) fun name => ?_
  refine forgets_bind (forgets_piece (by simp)) fun generics => ?_
  have hinputs : Forgets unplacedInputs (fun ts => takeInputs (ts.length + 1) true ts)
      (fun ts => takeInputs (ts.length + 1) true ts) := by
    intro ts
    show takeInputs ((unplacedAll ts).length + 1) true (unplacedAll ts) = _
    rw [length_unplacedAll]
    exact forgets_takeInputs _ true ts
  refine forgets_bind (forgets_within .parenthesis hinputs) fun r => ?_
  refine forgets_bind forgets_takeOutput fun output => ?_
  refine forgets_bind (forgets_piece (by simp)) fun clause => ?_
  exact forgets_pure (⟨constness, asyncness, unsafety, abi, functionWord, name, generics, r.1.1,
    r.1.2, r.2, output, clause⟩ : Signature)

end Signature

/-! ## Methods and blocks -/

namespace Method

theorem forgets_takeBody :
    Forgets (fun r => ((r.1.1.map Attribute.unplaced, unplacedAll r.1.2), Span.generated)) takeBody
      takeBody :=
  forgets_within (f := fun r : List Attribute × List TokenTree =>
      (r.1.map Attribute.unplaced, unplacedAll r.2)) .brace
    (forgets_bind Attribute.forgets_takeInner fun inner =>
      forgets_bind (forgets_piece (by simp)) fun statements => forgets_pure (inner, statements))

theorem forgets_take : Forgets unplaced take take := by
  refine forgets_bind Attribute.forgets_takeOuter fun outer => ?_
  refine forgets_bind (forgets_piece (by simp)) fun qualifiers => ?_
  refine forgets_bind Signature.forgets_take fun signature => ?_
  refine forgets_bind forgets_takeBody fun r => forgets_pure_of ?_
  rw [unplaced, List.map_append]

end Method

theorem Member.forgets_take : Forgets unplaced take take := by
  have hother : implMember.Blind := by simp [implMember]
  intro ts
  unfold take
  rw [Method.forgets_take ts, readBy_unplacedAll hother ts]
  cases Method.take ts with
  | none => cases readBy implMember ts <;> rfl
  | some r => rfl

namespace ImplBlock

/-- The trait and the type of a block. -/
abbrev unplacedSubject (r : Option (List TokenTree × WrittenType × List TokenTree) × WrittenType) :
    Option (List TokenTree × WrittenType × List TokenTree) × WrittenType :=
  (r.1.map unplacedTrait, r.2.unplaced)

theorem forgets_takeSubject : Forgets unplacedSubject takeSubject takeSubject := by
  refine forgets_bind (forgets_piece (by simp)) fun polarity => ?_
  refine forgets_bind (WrittenType.forgets_take true) fun first => ?_
  refine forgets_bind (forgets_ahead (by simp)) fun b => ?_
  cases b with
  | true =>
    refine forgets_bind (forgets_piece (by simp)) fun forWord => ?_
    rw [WrittenType.lastSegment?_unplaced, Option.isNone_map]
    split
    · exact forgets_fail
    · exact forgets_bind (WrittenType.forgets_take true) fun type =>
        forgets_pure (some (polarity, first, forWord), type)
  | false =>
    rw [isEmpty_unplacedAll]
    cases polarity.isEmpty with
    | true => exact forgets_pure (none, first)
    | false => exact forgets_fail

theorem forgets_takeBody :
    Forgets (fun r => ((r.1.1.map Attribute.unplaced, r.1.2.map Member.unplaced), Span.generated))
      takeBody takeBody := by
  refine forgets_within (f := fun r : List Attribute × List Member =>
    (r.1.map Attribute.unplaced, r.2.map Member.unplaced)) .brace
    (forgets_bind Attribute.forgets_takeInner fun inner => ?_)
  refine forgets_bind (forgets_many (by simp) Member.forgets_take) fun members => ?_
  refine forgets_bind (forgets_ahead (by simp)) fun b => ?_
  cases b with
  | true => exact forgets_pure (inner, members)
  | false => exact forgets_fail

theorem forgets_take : Forgets unplaced take take := by
  refine forgets_bind Attribute.forgets_takeOuter fun outer => ?_
  refine forgets_bind (forgets_piece (by simp [all])) fun words => ?_
  refine forgets_bind (forgets_piece (by simp)) fun generics => ?_
  refine forgets_bind forgets_takeSubject fun r => ?_
  refine forgets_bind (forgets_piece (by simp)) fun clause => ?_
  refine forgets_bind forgets_takeBody fun q => forgets_pure_of ?_
  rw [unplaced, List.map_append]

end ImplBlock

/-! ## Files -/

namespace Item

theorem forgets_takeModuleHead : Forgets Word.unplaced takeModuleHead takeModuleHead := by
  refine forgets_bind Attribute.forgets_takeOuter fun _ => ?_
  refine forgets_bind (forgets_piece (by simp [all])) fun _ => ?_
  refine forgets_bind (forgets_wordWhere isName_unplaced) fun name => ?_
  refine forgets_bind (forgets_ahead (by simp)) fun b => ?_
  cases b with
  | true => exact forgets_pure name
  | false => exact forgets_fail

theorem forgets_takeItems (n : Nat) : Forgets (List.map unplaced) (takeItems n) (takeItems n) := by
  induction n with
  | zero => exact forgets_fail
  | succ n ih =>
    rw [takeItems]
    refine forgets_many (by simp) fun ts => ?_
    have hitems : Forgets (List.map unplaced)
        (do let _ ← Attribute.takeInner; takeItems n)
        (do let _ ← Attribute.takeInner; takeItems n) :=
      forgets_bind Attribute.forgets_takeInner fun _ => ih
    have hcontent := forgets_within .brace hitems
    have hother : Grammar.Blind (.seq outerAttributes (.rule .item)) := by simp
    rw [ImplBlock.forgets_take ts, forgets_takeModuleHead ts, readBy_unplacedAll hother ts]
    cases ImplBlock.take ts with
    | some r => rfl
    | none =>
      cases takeModuleHead ts with
      | none => cases readBy (.seq outerAttributes (.rule .item)) ts <;> rfl
      | some r =>
        obtain ⟨name, rest⟩ := r
        simp only [Option.map_some, Option.map_none, hcontent rest, Option.map_map]
        congr 1
        funext q
        simp [unplaced, unplacedItems_eq_map, Word.unplaced, Word.made]

end Item

/-- The file that some tokens are does not depend on their places. -/
theorem SourceFile.ofTokens?_unplacedAll (ts : List TokenTree) :
    ofTokens? (unplacedAll ts) = (ofTokens? ts).map unplaced := by
  unfold ofTokens?
  have hitems : Forgets (List.map Item.unplaced)
      (do let _ ← Attribute.takeInner; Item.takeItems (weightOf ts + 1))
      (do let _ ← Attribute.takeInner; Item.takeItems (weightOf ts + 1)) :=
    forgets_bind Attribute.forgets_takeInner fun _ => Item.forgets_takeItems _
  rw [weightOf_unplacedAll, hitems.all? ts]
  cases Take.all? _ ts <;> rfl

end CommandBot
