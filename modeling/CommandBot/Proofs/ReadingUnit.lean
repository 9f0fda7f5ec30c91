import CommandBot.Proofs.PlainTypes
import CommandBot.Proofs.ReadingBodies
import CommandBot.Proofs.ReadingParts
import CommandBot.Source.File

/-
  The code of a dispatcher as a source file: the dispatcher's type, its members and its default
  value. `Dispatcher.file` says which file that is, and `ofTokens?_trees` that the code is read as
  it, if the pieces that the bot brought along can be read where they stand.
-/

namespace CommandBot

open Grammar Template TokenTree Take

/-! ## Parts that the generator makes -/

namespace Attribute

/-- Documentation, given the literal for its text. -/
def documenting (literal : String) : Attribute where
  signs := sign '#'
  path := words ["doc"]
  arguments := .assigned (sign '=') [.literal literal .generated]
  bracketSpan := .generated

theorem readBy_literal (text : String) (s : Span) :
    readBy expression [.literal text s] = some ([.literal text s], []) := by
  obtain ⟨n, hn⟩ := exists_depth_eq [.literal text s] (List.cons_ne_nil _ _)
  rw [readBy, hn]
  rfl

theorem readsBack_documenting (literal : String) : (documenting literal).ReadsBack where
  signs := rfl
  path := ⟨.made "doc", rfl, by decide⟩
  arguments := ⟨rfl, readBy_literal literal .generated⟩

theorem readsBack_make {name : String} (h : isName (made name) = true) (args : List TokenTree) :
    (make name args).ReadsBack where
  signs := rfl
  path := ⟨.made name, rfl, h⟩
  arguments := by
    rw [make]
    cases args <;> trivial

end Attribute

theorem ReadsAsResult.of_rule {ts : List TokenTree}
    (h : ∀ n content s z, readRule rules (n + 8) (.type true) (ts ++ .group .brace content s :: z) =
      some (ts, .group .brace content s :: z)) : ReadsAsResult ts := by
  intro n content s z hn
  obtain ⟨k, rfl⟩ : ∃ k, n = k + 8 := by
    have : 8 ≤ n := Nat.le_trans (Nat.le_mul_of_pos_right 8 (Nat.succ_pos _)) hn
    exact ⟨n - 8, by omega⟩
  exact h k content s z

/-! ## Signatures that the generator makes -/

/-- The parameter `&self`. -/
def Parameter.shared : Parameter := ⟨[], .receiver (sign '&') [] (words ["self"]) []⟩

/-- The parameter `self`. -/
def Parameter.owned : Parameter := ⟨[], .receiver [] [] (words ["self"]) []⟩

/-- A parameter for the event of a message. -/
def Parameter.event (name : String) : Parameter :=
  ⟨[], .typed (words [name] ++ sign ':') ⟨sign '&' ++ library ["MessageCreateEvent"]⟩⟩

/-- A parameter for the builder of a client. -/
def Parameter.builder : Parameter :=
  ⟨[], .typed (words ["builder"] ++ sign ':') ⟨library ["ClientBuilder"]⟩⟩

namespace Signature

/-- A signature of which nothing is written but its name, its parameters and its result. -/
def made (asyncness : List TokenTree) (name : Word) (inputs : List (Parameter × List TokenTree))
    (output : Option (List TokenTree × WrittenType)) : Signature where
  constness := []
  asyncness := asyncness
  unsafety := []
  abi := []
  functionWord := words ["fn"]
  name := name
  generics := []
  inputs := inputs
  variadic := []
  inputsSpan := .generated
  output := output
  clause := []

variable {asyncness : List TokenTree} {name : Word} {inputs : List (Parameter × List TokenTree)}
  {output : Option (List TokenTree × WrittenType)}

theorem readsBack_made (hasyncness : asyncness = [] ∨ asyncness = words ["async"])
    (hname : isName (.word name) = true)
    (hinputs : takeInputs ((made asyncness name inputs output).inputTrees.length + 1) true
      (made asyncness name inputs output).inputTrees = some ((inputs, []), []))
    (houtput : ∀ r ∈ output, r.1 = arrow ∧ ReadsAsResult r.2.trees) :
    (made asyncness name inputs output).ReadsBack where
  constness := rfl
  asyncness := hasyncness
  unsafety := rfl
  abi := rfl
  functionWord := rfl
  name := hname
  generics := rfl
  inputs := hinputs
  output := houtput
  clause := rfl

end Signature

/-! ## Members -/

namespace Handler

/-- The type of a handler's result. -/
def result (h : Handler) : WrittenType := ⟨h.output.drop arrow.length⟩

/-- The name of the event's parameter. -/
def eventName (h : Handler) : String := if h.forwardsEvent then "event" else "_event"

/-- A handler as a method: the command's documentation, name and result, and two parameters. -/
def method (h : Handler) : Method where
  attributes := h.docs
  qualifiers := []
  signature := .made [] h.name [(.shared, comma), (.event h.eventName, [])] (some (arrow, h.result))
  statements := h.callTrees
  bodySpan := .generated

/-- A handler whose pieces can be read where they stand. -/
structure ReadsBack (h : Handler) : Prop where
  name : isName (.word h.name) = true
  owner : ∀ t, h.delegate = .associated t → ReadsAsType true t.trees
  output : h.output = arrow ++ h.result.trees
  result : ReadsAsResult h.result.trees
  docs : ∀ a ∈ h.docs, a.ReadsBack

variable {h : Handler}

theorem readsBack_method (hh : h.ReadsBack) : h.method.ReadsBack where
  attributes := hh.docs
  qualifiers := .inl rfl
  signature := by
    refine Signature.readsBack_made (.inl rfl) hh.name ?_ ?_
    · unfold eventName
      split <;> rfl
    · rintro r ⟨⟩
      exact ⟨rfl, hh.result⟩
  statements := readBy_callTrees hh.name hh.owner
  inner := by
    unfold method callTrees
    dsimp only
    split <;> rfl

theorem trees_method (hh : h.ReadsBack) : h.method.trees = h.trees := by
  rw [(readsBack_method hh).trees_eq, trees, hh.output]
  simp [method, Signature.trees, Signature.made, Signature.inputTrees, Signature.outputTrees, Parameter.trees,
    Parameter.shared, Parameter.event, eventName, receiver, parens, braces, grouped, words]

end Handler

namespace DispatchTable

/-- The attributes of the method that dispatches. -/
def attributes (t : DispatchTable) : List Attribute :=
  .documenting "r\" Routes an inbound message to the matching command handler.\"" ::
    if t.duplicateKeys.isEmpty then [] else [.make "allow" (words ["unreachable_patterns"])]

/-- The method that dispatches. -/
def method (t : DispatchTable) : Method where
  attributes := t.attributes
  qualifiers := words ["pub"]
  signature := .made [] (.made methodName) [(.shared, comma), (.event "event", [])] none
  statements := t.matchTrees
  bodySpan := .generated

variable {t : DispatchTable}

theorem readsBack_attributes (t : DispatchTable) : ∀ a ∈ t.attributes, a.ReadsBack := by
  refine List.forall_mem_cons.mpr ⟨Attribute.readsBack_documenting _, ?_⟩
  split
  · exact fun a ha => absurd ha List.not_mem_nil
  · intro a ha
    rw [List.mem_singleton.mp ha]
    exact Attribute.readsBack_make (by decide) _

theorem readsBack_method (h : ∀ a ∈ t.arms, isName (.word a.handler) = true) :
    t.method.ReadsBack where
  attributes := readsBack_attributes t
  qualifiers := .inr rfl
  signature := Signature.readsBack_made (.inl rfl) (by decide) rfl fun r hr => nomatch hr
  statements := readBy_matchTrees h
  inner := rfl

theorem treesOf_attributes (t : DispatchTable) : Attribute.treesOf t.attributes =
    doc " Routes an inbound message to the matching command handler." ++ t.allowance := by
  unfold attributes allowance
  split <;> rfl

theorem trees_method (h : ∀ a ∈ t.arms, isName (.word a.handler) = true) :
    t.method.trees = t.trees := by
  rw [(readsBack_method h).trees_eq, trees]
  show Attribute.treesOf t.attributes ++ _ = _
  rw [treesOf_attributes]
  simp [method, Signature.trees, Signature.made, Signature.inputTrees, Signature.outputTrees, Parameter.trees,
    Parameter.shared, Parameter.event, receiver, parens, braces, grouped, words, TokenTree.made]

end DispatchTable

namespace Item

variable {ts p z : List TokenTree} {items : List Item} {n : Nat}

theorem ne_nil_of_length_lt (h : z.length < ts.length) : ts ≠ [] := by
  rintro rfl
  exact absurd h (Nat.not_lt_zero _)

/-- An impl block in front of further items. -/
theorem takeItems_block {b : ImplBlock} (h : ImplBlock.take ts = some (b, z))
    (hz : z.length < ts.length) (hmore : takeItems (n + 1) z = some (items, [])) :
    takeItems (n + 1) ts = some (.block b :: items, []) := by
  rw [takeItems] at hmore ⊢
  refine many_of_eq (never_atEnd_of_ne_nil (ne_nil_of_length_lt hz)) ?_ hz hmore rfl
  simp only [h]

/-- An item that is neither an impl block nor a module, in front of further items. -/
theorem takeItems_other (hblock : ImplBlock.take ts = none) (hmodule : takeModuleHead ts = none)
    (h : readBy (.seq outerAttributes (.rule .item)) ts = some (p, z)) (hz : z.length < ts.length)
    (hmore : takeItems (n + 1) z = some (items, [])) :
    takeItems (n + 1) ts = some (.other :: items, []) := by
  rw [takeItems] at hmore ⊢
  refine many_of_eq (never_atEnd_of_ne_nil (ne_nil_of_length_lt hz)) ?_ hz hmore rfl
  simp only [hblock, hmodule, h, Option.map_some]

end Item

namespace Dispatcher

/-- A dispatcher whose pieces can be read where they stand. -/
structure ReadsBack (u : Dispatcher) : Prop where
  name : isName (made u.name) = true
  sourceType : ∀ plus, ReadsAsType plus u.sourceType.trees
  plain : ∀ z, lifetimeAhead (u.sourceType.trees ++ z) = false ∧
    wordAhead "mut" (u.sourceType.trees ++ z) = false
  handlers : ∀ h ∈ u.handlers, h.ReadsBack
  arms : ∀ a ∈ u.table.arms, isName (.word a.handler) = true

/-- A public method that every dispatcher has, given its documentation. -/
def publicMethod (documentation : String) (signature : Signature) (body : List TokenTree) : Method where
  attributes := [.documenting ("r\"" ++ documentation ++ "\"")]
  qualifiers := words ["pub"]
  signature := signature
  statements := body
  bodySpan := .generated

theorem readsBack_publicMethod {documentation : String} {signature : Signature} {body : List TokenTree}
    (hsignature : signature.ReadsBack) (hbody : readBy statements body = some (body, []))
    (hinner : innerAhead body = false) :
    (publicMethod documentation signature body).ReadsBack where
  attributes := fun a ha => by
    rw [List.mem_singleton.mp ha]
    exact Attribute.readsBack_documenting _
  qualifiers := .inr rfl
  signature := hsignature
  statements := hbody
  inner := hinner

section
variable (u : Dispatcher)

def newMethod : Method :=
  publicMethod " Creates the dispatcher around a default-constructed bot."
    (.made [] (.made "new") [] (some (arrow, ⟨words ["Self"]⟩))) (newBody u.sourceType.trees)

def botMethod : Method :=
  publicMethod " The wrapped bot instance."
    (.made [] (.made "bot") [(.shared, [])] (some (arrow, ⟨sign '&' ++ u.sourceType.trees⟩))) botBody

def runMethod : Method :=
  publicMethod " Logs in through the installed gateway and starts dispatching commands."
    (.made (words ["async"]) (.made "run") [(.owned, [])] (some (arrow, ⟨clientResult⟩))) runBody

def runWithMethod : Method :=
  publicMethod " Logs in through `builder` and starts dispatching commands."
    (.made (words ["async"]) (.made "run_with") [(.owned, comma), (.builder, comma)]
      (some (arrow, ⟨clientResult⟩))) u.runWithBody

/-- The methods of a dispatcher, in order. -/
def methods : List Method :=
  [u.newMethod, u.botMethod, runMethod, u.runWithMethod] ++ u.handlers.map Handler.method ++
    [u.table.method]

/-- The block of a dispatcher's methods. -/
def block : ImplBlock where
  attributes := []
  words := words ["impl"]
  generics := []
  implemented := none
  selfType := ⟨words [u.name]⟩
  clause := []
  members := u.methods.map Member.method
  bodySpan := .generated

/-- The method that makes the default value of a dispatcher. -/
def defaultMethod : Method where
  attributes := []
  qualifiers := []
  signature := .made [] (.made "default") [] (some (arrow, ⟨words ["Self"]⟩))
  statements := defaultBody
  bodySpan := .generated

/-- The block that gives a dispatcher its default value. -/
def defaultBlock : ImplBlock where
  attributes := []
  words := words ["impl"]
  generics := []
  implemented := some ([], ⟨rootPath ["core", "default", "Default"]⟩, words ["for"])
  selfType := ⟨words [u.name]⟩
  clause := []
  members := [.method defaultMethod]
  bodySpan := .generated

/-- The file that a dispatcher's code is: its type, its methods and its default value. -/
def file : SourceFile := ⟨[.other, .block u.block, .block u.defaultBlock]⟩

end

theorem readsAsResult_self : ReadsAsResult (words ["Self"]) := .of_rule fun _ _ _ _ => rfl

theorem readsAsResult_clientResult : ReadsAsResult clientResult := .of_rule fun _ _ _ _ => rfl

theorem readsAsResult_reference {T : List TokenTree} (hT : ReadsAsType false T)
    (hplain : ∀ z, lifetimeAhead (T ++ z) = false ∧ wordAhead "mut" (T ++ z) = false) :
    ReadsAsResult (sign '&' ++ T) := by
  intro n content s z hn
  have hdepth : depth T + 1 ≤ n := by
    have hsign : 0 < weightOf (sign '&') := by
      rw [show sign '&' = [.mark '&' .alone .generated] from rfl, weightOf]
      exact Nat.lt_of_lt_of_le (weight_pos _) (Nat.le_add_right _ _)
    rw [depth, weightOf_append] at hn
    rw [depth]
    omega
  obtain ⟨k, rfl⟩ : ∃ k, n = k + 1 := ⟨n - 1, by omega⟩
  exact type_reference (.inl rfl) (.inl rfl) (hplain _) (hT k _ (by omega) rfl)

variable {u : Dispatcher}

theorem readsBack_newMethod (h : u.ReadsBack) : u.newMethod.ReadsBack := by
  refine readsBack_publicMethod (Signature.readsBack_made (.inl rfl) (by decide) rfl ?_)
    (readBy_newBody (h.sourceType true)) rfl
  rintro r ⟨⟩
  exact ⟨rfl, readsAsResult_self⟩

theorem readsBack_botMethod (h : u.ReadsBack) : u.botMethod.ReadsBack := by
  refine readsBack_publicMethod (Signature.readsBack_made (.inl rfl) (by decide) rfl ?_)
    readBy_botBody rfl
  rintro r ⟨⟩
  exact ⟨rfl, readsAsResult_reference (h.sourceType false) h.plain⟩

theorem readsBack_runMethod : runMethod.ReadsBack := by
  refine readsBack_publicMethod (Signature.readsBack_made (.inr rfl) (by decide) rfl ?_)
    readBy_runBody rfl
  rintro r ⟨⟩
  exact ⟨rfl, readsAsResult_clientResult⟩

theorem readsBack_runWithMethod (u : Dispatcher) : u.runWithMethod.ReadsBack := by
  refine readsBack_publicMethod (Signature.readsBack_made (.inr rfl) (by decide) rfl ?_)
    (readBy_runWithBody u) rfl
  rintro r ⟨⟩
  exact ⟨rfl, readsAsResult_clientResult⟩

theorem readsBack_defaultMethod : defaultMethod.ReadsBack where
  attributes := fun a ha => absurd ha List.not_mem_nil
  qualifiers := .inl rfl
  signature := by
    refine Signature.readsBack_made (.inl rfl) (by decide) rfl ?_
    rintro r ⟨⟩
    exact ⟨rfl, readsAsResult_self⟩
  statements := readBy_defaultBody
  inner := rfl

theorem readsBack_methods (h : u.ReadsBack) : ∀ m ∈ u.methods, m.ReadsBack := by
  intro m hm
  simp only [methods, List.mem_append, List.mem_cons, List.not_mem_nil, or_false, List.mem_map] at hm
  rcases hm with ((rfl | rfl | rfl | rfl) | ⟨handler, hmem, rfl⟩) | rfl
  · exact readsBack_newMethod h
  · exact readsBack_botMethod h
  · exact readsBack_runMethod
  · exact readsBack_runWithMethod u
  · exact Handler.readsBack_method (h.handlers handler hmem)
  · exact DispatchTable.readsBack_method h.arms

/-- A dispatcher has four methods of its own, one for each command, and one that dispatches. -/
theorem names_methods (u : Dispatcher) :
    u.methods.map (fun m => m.signature.name.text) =
      ["new", "bot", "run", "run_with"] ++ u.handlers.map (fun h => h.name.text) ++
        ["on_message"] := by
  rw [methods, List.map_append, List.map_append, List.map_map]
  rfl

theorem methods_block (u : Dispatcher) : u.block.methods = u.methods := by
  rw [ImplBlock.methods, block, List.filterMap_map]
  exact List.filterMap_some

theorem take_name (h : isName (made u.name) = true) (content : List TokenTree) (s : Span)
    (z : List TokenTree) :
    WrittenType.take true (words [u.name] ++ .group .brace content s :: z) =
      some (⟨words [u.name]⟩, .group .brace content s :: z) :=
  bind_of_eq ((PlainType.name h).readsAsType true _ _ (Signature.depth_le_append _ _) rfl)

theorem readsBack_block (h : u.ReadsBack) : u.block.ReadsBack where
  attributes := rfl
  words := rfl
  generics := rfl
  parameters := fun _ => rfl
  subject := by
    intro content s z
    have hpolarity : piece (optional negativeAhead (op "!"))
        (words [u.name] ++ .group .brace content s :: z) =
          some ([], words [u.name] ++ .group .brace content s :: z) := rfl
    refine (bind_of_eq hpolarity).trans ?_
    exact bind_of_eq (take_name h.name content s z)
  clause := rfl
  members := by
    intro m hm
    obtain ⟨n, hn, rfl⟩ := List.mem_map.mp hm
    exact ⟨n, rfl, readsBack_methods h n hn⟩

theorem readsBack_defaultBlock (h : u.ReadsBack) : u.defaultBlock.ReadsBack where
  attributes := rfl
  words := rfl
  generics := rfl
  parameters := fun _ => rfl
  subject := by
    intro content s z
    have hpolarity : ∀ ts, piece (optional negativeAhead (op "!"))
        (rootPath ["core", "default", "Default"] ++ ts) =
          some ([], rootPath ["core", "default", "Default"] ++ ts) := fun _ => rfl
    have htrait : ∀ ts, WrittenType.take true
        (rootPath ["core", "default", "Default"] ++ (words ["for"] ++ ts)) =
        some (⟨rootPath ["core", "default", "Default"]⟩, words ["for"] ++ ts) := fun _ => rfl
    refine (bind_of_eq (hpolarity _)).trans ?_
    refine (bind_of_eq (htrait _)).trans ?_
    refine (bind_of_eq (a := true)
      (r := words ["for"] ++ (words [u.name] ++ .group .brace content s :: z)) rfl).trans ?_
    refine (bind_of_eq (a := words ["for"]) rfl).trans ?_
    exact bind_of_eq (take_name h.name content s z)
  clause := rfl
  members := by
    intro m hm
    rw [List.mem_singleton.mp hm]
    exact ⟨_, rfl, readsBack_defaultMethod⟩

/-! ## The code as a file -/

theorem trees_newMethod (u : Dispatcher) : u.newMethod.trees = u.newTrees := rfl

theorem trees_botMethod (u : Dispatcher) : u.botMethod.trees = u.botTrees := by
  have htrees : u.botMethod.trees = doc " The wrapped bot instance." ++ (words ["pub", "fn", "bot"] ++
      (parens receiver ++ (arrow ++ (sign '&' ++ u.sourceType.trees) ++ [] ++ braces botBody))) := rfl
  rw [htrees, botTrees]
  simp [botBody]

theorem trees_runMethod : runMethod.trees = runTrees := rfl

theorem trees_runWithMethod (u : Dispatcher) : u.runWithMethod.trees = u.runWithTrees := by
  have htrees : u.runWithMethod.trees =
      doc " Logs in through `builder` and starts dispatching commands." ++
        (words ["pub", "async", "fn", "run_with"] ++
          (parens (words ["self"] ++ comma ++ words ["builder"] ++ sign ':' ++
              library ["ClientBuilder"] ++ comma) ++
            (arrow ++ clientResult ++ braces u.runWithBody))) := rfl
  rw [htrees, runWithTrees]
  simp [runWithBody, announcement, letToken, letThis, login]

theorem trees_methods (h : u.ReadsBack) :
    u.methods.flatMap Method.trees =
      u.newTrees ++ u.botTrees ++ runTrees ++ u.runWithTrees ++ u.handlers.flatMap Handler.trees ++
        u.table.trees := by
  have hhandlers : (u.handlers.map Handler.method).flatMap Method.trees =
      u.handlers.flatMap Handler.trees := by
    rw [List.flatMap_map]
    rw [List.flatMap_def, List.flatMap_def]
    exact congrArg List.flatten
      (List.map_congr_left fun handler hmem => Handler.trees_method (h.handlers handler hmem))
  simp [methods, hhandlers, trees_newMethod, trees_botMethod, trees_runMethod, trees_runWithMethod,
    DispatchTable.trees_method h.arms]

theorem trees_block (h : u.ReadsBack) : u.block.trees = u.implTrees := by
  have hmembers : u.block.members.flatMap Member.trees = u.methods.flatMap Method.trees :=
    List.flatMap_map _ _ _
  rw [implTrees, ← trees_methods h, ← hmembers]
  rfl

theorem trees_defaultBlock (u : Dispatcher) : u.defaultBlock.trees = u.defaultTrees := rfl

/-- The documentation of the dispatcher's type, as an attribute. -/
def typeAttribute (u : Dispatcher) : Attribute := .documenting (Text.literal u.typeDoc)

/-- The only field of the dispatcher's type. -/
def fieldTrees (u : Dispatcher) : List TokenTree :=
  words ["bot"] ++ (sign ':' ++ u.sourceType.trees)

/-- The dispatcher's type behind its documentation. -/
def plainStruct (u : Dispatcher) : List TokenTree :=
  words ["pub"] ++ (words ["struct"] ++ (words [u.name] ++
    braces (u.fieldTrees ++ comma)))

theorem structTrees_eq (u : Dispatcher) :
    u.structTrees = Attribute.treesOf [u.typeAttribute] ++ u.plainStruct := by
  have hattribute : Attribute.treesOf [u.typeAttribute] =
      attributed (words ["doc"] ++ sign '=' ++ textLiteral u.typeDoc) := rfl
  rw [hattribute, structTrees, plainStruct, fieldTrees]
  simp [words]

section
variable (z : List TokenTree)

theorem takeOuter_structTrees (u : Dispatcher) :
    Attribute.takeOuter (u.structTrees ++ z) = some ([u.typeAttribute], u.plainStruct ++ z) := by
  rw [structTrees_eq, List.append_assoc]
  refine Attribute.takeOuter_treesOf (fun a ha => ?_) rfl
  rw [List.mem_singleton.mp ha]
  exact Attribute.readsBack_documenting _

theorem takeBlock_structTrees (u : Dispatcher) : ImplBlock.take (u.structTrees ++ z) = none :=
  (bind_of_eq (takeOuter_structTrees z u)).trans rfl

theorem takeModuleHead_structTrees (u : Dispatcher) :
    Item.takeModuleHead (u.structTrees ++ z) = none :=
  (bind_of_eq (takeOuter_structTrees z u)).trans rfl

theorem read_namedFields {f : Phrase → Reader}
    (h : f (.type true) (u.sourceType.trees ++ comma) = some (u.sourceType.trees, comma)) :
    namedFields.read f (braces (u.fieldTrees ++ comma) ++ z) =
      some (braces (u.fieldTrees ++ comma), z) := by
  have hattributes : outerAttributes.read f (u.fieldTrees ++ comma) =
      some ([], u.fieldTrees ++ comma) := rfl
  have hvisibility : visibility.read f (u.fieldTrees ++ comma) = some ([], u.fieldTrees ++ comma) :=
    rfl
  have hname : (Grammar.name : Syntax).read f (u.fieldTrees ++ comma) =
      some (words ["bot"], sign ':' ++ (u.sourceType.trees ++ comma)) := rfl
  have hfield := read_seq hattributes
    (read_seq hvisibility (read_seq hname (read_seq (read_sign ':') (read_rule h))))
  exact read_inside (d := .brace) (s := .generated) (z := z)
    (read_listed_one (List.cons_ne_nil _ _) hfield)

theorem rule_item_plainStruct (h : u.ReadsBack) {n : Nat} (hn : depth u.sourceType.trees ≤ n + 1) :
    readRule rules (n + 2) .item (u.plainStruct ++ z) = some (u.plainStruct, z) := by
  have hfields := read_namedFields z (h.sourceType true (n + 1) comma hn rfl)
  have hname : (Grammar.name : Syntax).read (readRule rules (n + 1))
      (words [u.name] ++ (braces (u.fieldTrees ++ comma) ++ z)) =
        some (words [u.name], braces (u.fieldTrees ++ comma) ++ z) := by
    have hown := h.name
    rw [made] at hown
    simp [Grammar.name, Grammar.token, Grammar.read, words, made, hown]
  have hgenerics : generics.read (readRule rules (n + 1)) (braces (u.fieldTrees ++ comma) ++ z) =
      some ([], braces (u.fieldTrees ++ comma) ++ z) := rfl
  have hwhere : (Grammar.rule .whereClause : Syntax).read (readRule rules (n + 1))
      (braces (u.fieldTrees ++ comma) ++ z) = some ([], braces (u.fieldTrees ++ comma) ++ z) := rfl
  have hvisibility : visibility.read (readRule rules (n + 1)) (u.plainStruct ++ z) =
      some (words ["pub"], words ["struct"] ++ (words [u.name] ++
        (braces (u.fieldTrees ++ comma) ++ z))) := rfl
  have htail : structTail.read (readRule rules (n + 1))
      (words [u.name] ++ (braces (u.fieldTrees ++ comma) ++ z)) =
        some (words [u.name] ++ braces (u.fieldTrees ++ comma), z) := by
    refine read_seq hname (read_seq hgenerics (read_seq hwhere ?_))
    exact hfields
  have hstruct := read_seq (read_word "struct") htail
  show itemRule.read (readRule rules (n + 1)) (u.plainStruct ++ z) = some (u.plainStruct, z)
  refine read_seq hvisibility ?_
  exact hstruct

theorem readBy_structTrees (h : u.ReadsBack) :
    readBy (.seq outerAttributes (.rule .item)) (u.structTrees ++ z) = some (u.structTrees, z) := by
  have hne : u.structTrees ≠ [] := by
    rw [structTrees_eq]
    exact List.cons_ne_nil _ _
  obtain ⟨n, hn⟩ := exists_depth_eq (u.structTrees ++ z)
    (fun hnil => hne (List.append_eq_nil_iff.mp hnil).1)
  have hdepth : depth u.sourceType.trees ≤ n + 15 := by
    simp only [depth, structTrees, words, braces, grouped, weightOf_append, weightOf, weight,
      List.map_cons, List.map_nil] at hn ⊢
    omega
  have houter : outerAttributes.read (readRule rules (n + 16))
      (Attribute.treesOf [u.typeAttribute] ++ (u.plainStruct ++ z)) =
        some (Attribute.treesOf [u.typeAttribute], u.plainStruct ++ z) := rfl
  have hread := read_seq houter (read_rule (rule_item_plainStruct z h hdepth))
  rw [readBy, hn, structTrees_eq, List.append_assoc]
  exact hread

/-- A dispatcher's code is the file of its type, its methods and its default value. -/
theorem ofTokens?_trees (h : u.ReadsBack) : SourceFile.ofTokens? u.trees = some u.file := by
  have hblock := ImplBlock.take_trees (readsBack_block h) u.defaultTrees
  have hdefault := ImplBlock.take_trees (readsBack_defaultBlock h) []
  rw [trees_block h] at hblock
  rw [trees_defaultBlock, List.append_nil] at hdefault
  have hitems : ∀ n, Item.takeItems (n + 1) u.trees = some (u.file.items, []) := by
    intro n
    have htrees : u.trees = u.structTrees ++ (u.implTrees ++ u.defaultTrees) := by
      rw [trees, List.append_assoc]
    have himpl : 0 < u.implTrees.length := Nat.succ_pos _
    have hstruct : 0 < u.structTrees.length := Nat.succ_pos _
    rw [htrees]
    refine Item.takeItems_other (takeBlock_structTrees _ u) (takeModuleHead_structTrees _ u)
      (readBy_structTrees _ h) (by simp only [List.length_append]; omega) ?_
    refine Item.takeItems_block hblock (by simp only [List.length_append]; omega) ?_
    exact Item.takeItems_block hdefault (Nat.succ_pos _) (many_nil rfl)
  have hinner : Attribute.takeInner u.trees = some ([], u.trees) := many_nil rfl
  have hfile : Take.all? (do let _ ← Attribute.takeInner; Item.takeItems (weightOf u.trees + 1))
      u.trees = some u.file.items := by
    rw [Take.all?_eq_some, bind_of_eq hinner, hitems]
  rw [SourceFile.ofTokens?, hfile]
  rfl

end

end Dispatcher

end CommandBot
