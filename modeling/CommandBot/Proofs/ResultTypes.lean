import CommandBot.Proofs.Accepted
import CommandBot.Proofs.HandlerContract
import CommandBot.Proofs.LegibleParts
import CommandBot.Proofs.NamedTypes
import CommandBot.Proofs.ReadingUnit
import CommandBot.Proofs.SyntaxTrees

/-
  What the result type of a command means, where the command stands and where its handler does. A
  type says the same in two places unless it mentions the type that the block is for, or leaves out
  a lifetime: `TypePart` marks these places in a type's syntax tree, and a `TypeScope` says what they
  stand for. `result_means_same_iff`: the handler has the command's result type as it is written, so
  it means the same exactly when it never says `Self` and leaves out lifetimes only where they are
  those of the command's receiver.
-/

namespace CommandBot

open Grammar Template TokenTree

/-! ## Parts of a type -/

/-- A piece of a type, or a place in it that is filled by what stands around the type. -/
inductive TypePart where
  | piece (p : Piece)
  /-- the type that the block around is for -/
  | self
  /-- a lifetime that is left to the signature around -/
  | elided
deriving DecidableEq

/-- What a type depends on besides its own tokens and its signature: the items of the program. -/
structure Items where
  /-- how many lifetimes a path leaves out, such as that of `Ref` in `Ref<T>` -/
  hidden : List TokenTree → Nat
  /-- the parts of the type that the call of a macro stands for -/
  expansion : List TokenTree → List TypePart

namespace TypePart

/-- A piece by itself: only the word `Self` is about what stands around. -/
def ofPiece (p : Piece) : TypePart := if p = .word "Self" then .self else .piece p

end TypePart

namespace SyntaxTree

/-- Whether lifetimes left out in this part of a path are those of another signature: the parameters
and the result of a function trait. -/
def isCallType : SyntaxTree → Bool
  | .group .parenthesis _ _ => true
  | .phrase (.type plus) _ => !plus
  | _ => false

def isFnWord : SyntaxTree → Bool
  | .token t => isWord "fn" t
  | _ => false

/-- Whether a type is a reference without a lifetime. -/
def isBareReference : List SyntaxTree → Bool
  | .token (.mark '&' _ _) :: .lifetime _ _ :: _ => false
  | .token (.mark '&' _ _) :: _ => true
  | _ => false

/-- Whether a type is the call of a macro. -/
def isMacroCall : List SyntaxTree → Bool
  | .phrase .path _ :: .token (.mark '!' _ _) :: _ => true
  | _ => false

mutual

/-- The parts of a tree, in a place where the lifetimes that are left out are those of the signature
around (`elides`), or are not. Function types and constants have a scope of their own for lifetimes,
items also one for `Self`. -/
def parts (items : Items) (elides : Bool) : SyntaxTree → List TypePart
  | .token t => t.pieces.map .ofPiece
  | .lifetime s w =>
    if elides && w.text == "_" then [.elided]
    else (piecesOf [.mark '\'' .joint s, .word w]).map .piece
  | .group d content _ =>
    .piece (.opening d) :: (partsOf items elides false content ++ [.piece (.closing d)])
  | .phrase (.type _) content =>
    let elides := elides && !content.any isFnWord
    if isMacroCall content then
      (items.expansion (treesOf content)).filter fun p => elides || p ≠ .elided
    else
      (if elides && isBareReference content then [.elided] else []) ++
        partsOf items elides false content
  | .phrase .path content =>
    List.replicate (if elides then items.hidden (treesOf content) else 0) .elided ++
      partsOf items elides true content
  | .phrase .arguments content => partsOf items elides false content
  | .phrase .bound content => partsOf items elides false content
  | .phrase .item content => (piecesOf (treesOf content)).map .piece
  | .phrase _ content => partsOf items false false content

/-- The parts of some trees, perhaps those that make up a path. -/
def partsOf (items : Items) (elides inPath : Bool) : List SyntaxTree → List TypePart
  | [] => []
  | t :: rest =>
    parts items (elides && !(inPath && t.isCallType)) t ++ partsOf items elides inPath rest

end

end SyntaxTree

/-! ## What they stand for -/

/-- Where a lifetime that is left out comes from. -/
inductive Origin where
  | receiver
  | parameter
  | named (text : String)
deriving DecidableEq

/-- The lifetime of a type if it is a reference; a lifetime that is not named comes from `anonymous`. -/
def Origin.ofReference (anonymous : Origin) : List TokenTree → Option Origin
  | .mark '&' _ _ :: .mark '\'' _ _ :: .word w :: _ =>
    some (if w.text = "_" then anonymous else .named w.text)
  | .mark '&' _ _ :: _ => some anonymous
  | _ => none

/-- The lifetime of the reference that a parameter is, if it is one. -/
def Parameter.origin (p : Parameter) : Option Origin :=
  match p.form with
  | .receiver reference _ _ _ => Origin.ofReference .receiver reference
  | .typed _ type => Origin.ofReference .parameter type.trees

/-- Where lifetimes left out of a result come from: from the receiver if it is a reference, otherwise
from the only parameter that is one. -/
def Signature.elided (s : Signature) : Option Origin :=
  (s.receiver?.bind Parameter.origin).or
    (match s.furtherParameters.filterMap Parameter.origin with
    | [o] => some o
    | _ => none)

/-- What stands around a type. -/
structure TypeScope where
  /-- the type that the block is for -/
  self : List Piece
  /-- where lifetimes that are left out come from -/
  elided : Option Origin

/-- The scope of a signature's result in a block for this type. -/
def Signature.scope (s : Signature) (t : WrittenType) : TypeScope := ⟨piecesOf t.trees, s.elided⟩

/-- A part of a type with its places filled. -/
inductive Resolved where
  | piece (p : Piece)
  | type (ps : List Piece)
  | lifetime (o : Option Origin)
deriving DecidableEq

namespace TypeScope

def resolve (σ : TypeScope) : TypePart → Resolved
  | .piece p => .piece p
  | .self => .type σ.self
  | .elided => .lifetime σ.elided

/-- What a type means in a scope. -/
def meaning (σ : TypeScope) (items : Items) (content : List SyntaxTree) : List Resolved :=
  (SyntaxTree.partsOf items true false content).map σ.resolve

/-- A type means the same in two scopes unless it mentions something in which they differ. -/
theorem meaning_eq_iff {σ τ : TypeScope} {items : Items} {content : List SyntaxTree} :
    σ.meaning items content = τ.meaning items content ↔
      (.self ∈ SyntaxTree.partsOf items true false content → σ.self = τ.self) ∧
        (.elided ∈ SyntaxTree.partsOf items true false content → σ.elided = τ.elided) := by
  rw [meaning, meaning, List.map_inj_left]
  constructor
  · intro h
    exact ⟨fun hself => Resolved.type.inj (h _ hself),
      fun helided => Resolved.lifetime.inj (h _ helided)⟩
  · rintro ⟨hself, helided⟩ (p | _ | _) hmem
    · rfl
    · exact congrArg _ (hself hmem)
    · exact congrArg _ (helided hmem)

end TypeScope

/-! ## Where a result type is read -/

open Take

/-- A type is written among some tokens, with a syntax tree that prints as it does. -/
def WrittenType.IsReadIn (t : WrittenType) (ts : List TokenTree) (content : List SyntaxTree) : Prop :=
  ∃ source behind, source <:+ ts ∧ parseBy Grammar.type source = some (content, behind) ∧
    SyntaxTree.treesOf content = t.trees

namespace Signature

theorem exists_of_takeOutput {ts rest : List TokenTree} {arrow : List TokenTree}
    {type : WrittenType} (h : takeOutput ts = some (some (arrow, type), rest)) :
    arrow.length = Template.arrow.length ∧ ∃ content, type.IsReadIn ts content := by
  rw [takeOutput, bind_apply] at h
  obtain ⟨⟨b, ts'⟩, hahead, h⟩ := Option.bind_eq_some_iff.mp h
  cases hahead
  dsimp only at h
  split at h
  · obtain ⟨⟨arrow', source⟩, harrow, h⟩ := Option.bind_eq_some_iff.mp h
    obtain ⟨⟨type', behind⟩, htype, h⟩ := Option.bind_eq_some_iff.mp h
    cases h
    obtain ⟨⟨printed, behind'⟩, hread, h⟩ := Option.bind_eq_some_iff.mp htype
    cases h
    obtain ⟨content, hparse, hprint⟩ := exists_parseBy hread
    have hlength := congrArg List.length (Grammar.unplacedAll_of_readOperator harrow)
    rw [length_unplacedAll] at hlength
    exact ⟨hlength, content, source, _, suffix_of_readBy harrow, hparse, hprint⟩
  · cases h

/-- The parts of a signature before its result are at the front. -/
theorem exists_of_take {ts rest : List TokenTree} {s : Signature} (h : take ts = some (s, rest)) :
    ∃ before behind, before <:+ ts ∧ takeOutput before = some (s.output, behind) := by
  rw [take, bind_apply] at h
  obtain ⟨⟨constness, ts₁⟩, h₁, h⟩ := Option.bind_eq_some_iff.mp h
  obtain ⟨⟨asyncness, ts₂⟩, h₂, h⟩ := Option.bind_eq_some_iff.mp h
  obtain ⟨⟨unsafety, ts₃⟩, h₃, h⟩ := Option.bind_eq_some_iff.mp h
  obtain ⟨⟨abi, ts₄⟩, h₄, h⟩ := Option.bind_eq_some_iff.mp h
  obtain ⟨⟨functionWord, ts₅⟩, h₅, h⟩ := Option.bind_eq_some_iff.mp h
  obtain ⟨⟨name, ts₆⟩, h₆, h⟩ := Option.bind_eq_some_iff.mp h
  obtain ⟨⟨generics, ts₇⟩, h₇, h⟩ := Option.bind_eq_some_iff.mp h
  obtain ⟨⟨inputs, before⟩, h₈, h⟩ := Option.bind_eq_some_iff.mp h
  obtain ⟨⟨output, behind⟩, houtput, h⟩ := Option.bind_eq_some_iff.mp h
  obtain ⟨⟨clause, rest'⟩, -, h⟩ := Option.bind_eq_some_iff.mp h
  cases h
  have hname := (takesFront_wordWhere _ _ _ _ h₆).trans (suffix_of_readBy h₅)
  have hqualifiers := (suffix_of_readBy h₄).trans ((suffix_of_readBy h₃).trans
    ((suffix_of_readBy h₂).trans (suffix_of_readBy h₁)))
  have hinputs := (takesFront_within _ _ _ _ _ h₈).trans (suffix_of_readBy h₇)
  exact ⟨before, behind, hinputs.trans (hname.trans hqualifiers), houtput⟩

end Signature

/-- The result type of a method is written among its tokens. -/
theorem Method.exists_isReadIn {ts rest : List TokenTree} {m : Method}
    (h : take ts = some (m, rest)) {arrow : List TokenTree} {type : WrittenType}
    (houtput : m.signature.output = some (arrow, type)) :
    arrow.length = Template.arrow.length ∧ ∃ content, type.IsReadIn ts content := by
  rw [take, bind_apply] at h
  obtain ⟨⟨outer, ts₁⟩, houter, h⟩ := Option.bind_eq_some_iff.mp h
  obtain ⟨⟨qualifiers, ts₂⟩, hqualifiers, h⟩ := Option.bind_eq_some_iff.mp h
  obtain ⟨⟨signature, ts₃⟩, hsignature, h⟩ := Option.bind_eq_some_iff.mp h
  obtain ⟨⟨body, rest'⟩, -, h⟩ := Option.bind_eq_some_iff.mp h
  cases h
  obtain ⟨before, behind, hbefore, htake⟩ := Signature.exists_of_take hsignature
  rw [houtput] at htake
  obtain ⟨harrow, content, source, behind', hsource, hparse⟩ := Signature.exists_of_takeOutput htake
  have hfront := (suffix_of_readBy hqualifiers).trans (Attribute.takesFront_takeOuter _ _ _ houter)
  exact ⟨harrow, content, source, behind', hsource.trans (hbefore.trans hfront), hparse⟩

/-! ## Commands and handlers -/

/-- The type of the dispatcher of a bot with this name. -/
def unitType (name : Word) : WrittenType := ⟨words ["Magicord" ++ name.bare]⟩

theorem Word.text_ne_unitName (w : Word) : w.text ≠ "Magicord" ++ w.bare := by
  have hbare : w.text.length ≤ w.bare.length + 2 := by
    unfold Word.bare
    split
    · rename_i rest htext
      have hlength := congrArg List.length htext
      rw [String.length_toList, List.length_cons, List.length_cons] at hlength
      refine Nat.le_of_eq ?_
      rw [String.length_ofList, hlength]
    · exact Nat.le_add_right _ 2
  intro h
  have hlength := congrArg String.length h
  rw [String.length_append] at hlength
  have hprefix : "Magicord".length = 8 := rfl
  omega

/-- The dispatcher's type is another one than the bot's. -/
theorem piecesOf_ne_unitType {owner : WrittenType} {name : Word}
    (h : Declaration.nameOf owner = .ok name) : piecesOf owner.trees ≠ piecesOf (unitType name).trees := by
  obtain ⟨before, htrees⟩ := Declaration.exists_trees_of_nameOf h
  have hunit : piecesOf (unitType name).trees = [] ++ [.word ("Magicord" ++ name.bare)] := by
    rw [unitType, words, List.map_singleton, made, piecesOf_cons, pieces_word, piecesOf_nil]
    rfl
  rw [htrees, piecesOf_append, piecesOf_cons, pieces_word, piecesOf_nil, hunit]
  intro heq
  have hlast := (List.append_inj' heq rfl).2
  exact name.text_ne_unitName (Piece.word.inj (List.cons.inj hlast).1)

namespace Handler

/-- A handler answers with the type of its command as the command writes it. -/
theorem exists_result {ts rest : List TokenTree} {m : Method} (hm : Method.take ts = some (m, rest))
    {owner : WrittenType} {h : Handler} (hh : (ofCommand (.ofMethod owner m)).value = .ok h) :
    ∃ arrow, m.signature.output = some (arrow, h.result) ∧ h.output = arrow ++ h.result.trees := by
  obtain ⟨hsound, rfl⟩ := (ofCommand_eq_ok_iff _ h).mp hh
  obtain ⟨⟨arrow, type⟩, houtput⟩ := exists_output hsound
  have hcopied : (ofSound (.ofMethod owner m)).output = arrow ++ type.trees := by
    show m.signature.outputTrees = _
    rw [Signature.outputTrees, show m.signature.output = some (arrow, type) from houtput]
  have hresult : (ofSound (.ofMethod owner m)).result = type := by
    rw [result, hcopied, ← (m.exists_isReadIn hm houtput).1, List.drop_left]
  exact ⟨arrow, by rw [hresult]; exact houtput, by rw [hresult, hcopied]⟩

/-- The result type of a command, in the handler as the command writes it, means the same there
exactly when it does not say `Self` and leaves out lifetimes only if they are those of the command's
receiver. -/
theorem result_means_same_iff {ts rest : List TokenTree} {m : Method}
    (hm : Method.take ts = some (m, rest)) {owner : WrittenType} {name : Word}
    (hname : Declaration.nameOf owner = .ok name) {h : Handler}
    (hh : (ofCommand (.ofMethod owner m)).value = .ok h) :
    ∃ arrow type, m.signature.output = some (arrow, type) ∧
      h.method.signature.output = some (Template.arrow, type) ∧ h.output = arrow ++ type.trees ∧
      (∃ content, type.IsReadIn ts content) ∧
      ∀ content, type.IsReadIn ts content → ∀ items,
        ((m.signature.scope owner).meaning items content =
            (h.method.signature.scope (unitType name)).meaning items content ↔
          .self ∉ SyntaxTree.partsOf items true false content ∧
            (.elided ∈ SyntaxTree.partsOf items true false content →
              m.signature.elided = some .receiver)) := by
  obtain ⟨arrow, houtput, hcopied⟩ := exists_result hm hh
  refine ⟨arrow, h.result, houtput, rfl, hcopied, (m.exists_isReadIn hm houtput).2,
    fun content _ items => ?_⟩
  rw [TypeScope.meaning_eq_iff]
  exact and_congr ⟨fun hself hmem => piecesOf_ne_unitType hname (hself hmem),
    fun hnot hmem => absurd hmem hnot⟩ Iff.rfl

/-- The method `hello` with these parameters and this result. -/
def hello (inputs : List (Parameter × List TokenTree)) (type : List TokenTree) : Method where
  attributes := []
  qualifiers := []
  signature := .made [] (.made "hello") inputs (some (arrow, ⟨type⟩))
  statements := []
  bodySpan := .generated

theorem isReadIn_hello {inputs : List (Parameter × List TokenTree)} {type : List TokenTree}
    {content : List SyntaxTree}
    (h : parseBy Grammar.type (type ++ braces []) = some (content, braces []))
    (htrees : SyntaxTree.treesOf content = type) :
    WrittenType.IsReadIn ⟨type⟩ (hello inputs type).trees content := by
  refine ⟨type ++ braces [], braces [], ?_, h, htrees⟩
  refine ⟨words ["fn", "hello"] ++ parens (hello inputs type).signature.inputTrees ++ arrow, ?_⟩
  simp [Method.trees, hello, Signature.trees, Signature.made, Signature.outputTrees, words, parens,
    braces, grouped, Attribute.treesOf, made]

/-- The handler for this method of `Greeter`. -/
def helloHandler (inputs : List (Parameter × List TokenTree)) (type : List TokenTree) : Handler :=
  ofSound (.ofMethod ⟨words ["Greeter"]⟩ (hello inputs type))

/-- The tree of `&str`. -/
def textReference : List SyntaxTree :=
  [.phrase (.type true)
    [.token (.mark '&' .alone .generated),
      .phrase (.type false) [.phrase .path [.token (made "str")]]]]

/-- The tree of `Self`. -/
def selfTree : List SyntaxTree := [.phrase (.type true) [.phrase .path [.token (made "Self")]]]

theorem elided_mem_textReference (items : Items) :
    .elided ∈ SyntaxTree.partsOf items true false textReference := by
  simp [textReference, SyntaxTree.partsOf, SyntaxTree.parts, SyntaxTree.isBareReference,
    SyntaxTree.isMacroCall, SyntaxTree.isFnWord, isWord]

theorem self_not_mem_textReference (items : Items) :
    .self ∉ SyntaxTree.partsOf items true false textReference := by
  simp [textReference, SyntaxTree.partsOf, SyntaxTree.parts, SyntaxTree.isBareReference,
    SyntaxTree.isMacroCall, SyntaxTree.isFnWord, isWord, pieces_word, pieces_mark, made, Word.made,
    TypePart.ofPiece]

theorem self_mem_selfTree (items : Items) :
    .self ∈ SyntaxTree.partsOf items true false selfTree := by
  simp [selfTree, SyntaxTree.partsOf, SyntaxTree.parts, SyntaxTree.isBareReference,
    SyntaxTree.isMacroCall, SyntaxTree.isFnWord, pieces_word, made, Word.made, TypePart.ofPiece]

/-- `fn hello(&self) -> &str` and its handler answer with the same type. -/
theorem result_means_same_iff_receiver :
    let m := hello [(.shared, [])] (sign '&' ++ words ["str"])
    let h := helloHandler [(.shared, [])] (sign '&' ++ words ["str"])
    Method.take m.trees = some (m, []) ∧
      Declaration.nameOf ⟨words ["Greeter"]⟩ = .ok (.made "Greeter") ∧
      (ofCommand (.ofMethod ⟨words ["Greeter"]⟩ m)).value = .ok h ∧
      ∀ items, (m.signature.scope ⟨words ["Greeter"]⟩).meaning items textReference =
        (h.method.signature.scope (unitType (.made "Greeter"))).meaning items textReference := by
  intro m h
  have hm : Method.take m.trees = some (m, []) := rfl
  have hname : Declaration.nameOf ⟨words ["Greeter"]⟩ = .ok (.made "Greeter") := rfl
  have hh : (ofCommand (.ofMethod ⟨words ["Greeter"]⟩ m)).value = .ok h := rfl
  refine ⟨hm, hname, hh, fun items => ?_⟩
  obtain ⟨arrow, type, houtput, -, -, -, hiff⟩ := result_means_same_iff hm hname hh
  obtain ⟨-, rfl⟩ := Prod.mk.inj (Option.some.inj houtput)
  exact (hiff _ (isReadIn_hello rfl rfl) items).mpr ⟨self_not_mem_textReference items, fun _ => rfl⟩

/-- `fn hello(&self) -> Self` answers with the bot, and its handler with the dispatcher. Without a
receiver, `fn hello(event: &MessageCreateEvent) -> &str` answers with a part of the event, and its
handler with a part of the dispatcher. -/
theorem exists_result_means_other :
    (∃ m h, Method.take m.trees = some (m, []) ∧
      (ofCommand (.ofMethod ⟨words ["Greeter"]⟩ m)).value = .ok h ∧
      WrittenType.IsReadIn h.result m.trees selfTree ∧
      ∀ items, (m.signature.scope ⟨words ["Greeter"]⟩).meaning items selfTree ≠
        (h.method.signature.scope (unitType (.made "Greeter"))).meaning items selfTree) ∧
    ∃ m h, Method.take m.trees = some (m, []) ∧
      (ofCommand (.ofMethod ⟨words ["Greeter"]⟩ m)).value = .ok h ∧
      WrittenType.IsReadIn h.result m.trees textReference ∧
      ∀ items, (m.signature.scope ⟨words ["Greeter"]⟩).meaning items textReference ≠
        (h.method.signature.scope (unitType (.made "Greeter"))).meaning items textReference := by
  constructor
  · refine ⟨hello [(.shared, [])] (words ["Self"]), helloHandler [(.shared, [])] (words ["Self"]),
      rfl, rfl, isReadIn_hello rfl rfl, fun items hsame => ?_⟩
    have hname : Declaration.nameOf ⟨words ["Greeter"]⟩ = .ok (.made "Greeter") := rfl
    exact piecesOf_ne_unitType hname
      ((TypeScope.meaning_eq_iff.mp hsame).1 (self_mem_selfTree items))
  · refine ⟨hello [(.event "event", [])] (sign '&' ++ words ["str"]),
      helloHandler [(.event "event", [])] (sign '&' ++ words ["str"]), rfl, rfl,
      isReadIn_hello rfl rfl, fun items hsame => ?_⟩
    have helided := (TypeScope.meaning_eq_iff.mp hsame).2 (elided_mem_textReference items)
    exact absurd helided (by decide)

end Handler

end CommandBot
