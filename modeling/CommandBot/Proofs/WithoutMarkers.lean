import CommandBot.Bot.Dispatcher
import CommandBot.Proofs.FileDeclarations

/-
  Blocks without their markers. `ImplBlock.Unmarks` says of two blocks that the second is the first
  with the bot markers cut from its attributes and the command markers from those of its methods,
  and is the same otherwise. `withoutMarkers_exact`: `withoutMarkers` is the one function that does
  this; it changes an inherent block just when the block declares a bot, and what it leaves declares
  none, wherever it stands.
-/

namespace CommandBot

/-! ## What is cut -/

namespace Attribute

/-- The second list is the first without the attributes that mark with this name. -/
inductive Unmarks (name : String) : List Attribute → List Attribute → Prop
  | nil : Unmarks name [] []
  | cut {a : Attribute} {as kept : List Attribute} (ha : a.EndsIn name)
      (h : Unmarks name as kept) : Unmarks name (a :: as) kept
  | keep {a : Attribute} {as kept : List Attribute} (ha : ¬ a.EndsIn name)
      (h : Unmarks name as kept) : Unmarks name (a :: as) (a :: kept)

theorem isMarker_eq_false_iff (a : Attribute) (name : String) :
    a.isMarker name = false ↔ ¬ a.EndsIn name := by
  rw [← isMarker_iff, Bool.not_eq_true]

theorem unmarks_iff {name : String} {as kept : List Attribute} :
    Unmarks name as kept ↔ kept = as.filter fun a => !a.isMarker name := by
  constructor
  · intro h
    induction h with
    | nil => rfl
    | cut ha _ ih =>
      rw [List.filter_cons, (isMarker_iff _ _).mpr ha]
      exact ih
    | keep ha _ ih =>
      rw [List.filter_cons, (isMarker_eq_false_iff _ _).mpr ha]
      exact congrArg _ ih
  · rintro rfl
    induction as with
    | nil => exact .nil
    | cons a as ih =>
      rw [List.filter_cons]
      by_cases ha : a.EndsIn name
      · rw [(isMarker_iff _ _).mpr ha]
        exact .cut ha ih
      · rw [(isMarker_eq_false_iff _ _).mpr ha]
        exact .keep ha ih

theorem filter_eq_self_iff {name : String} {as : List Attribute} :
    (as.filter fun a => !a.isMarker name) = as ↔ ∀ a ∈ as, ¬ a.EndsIn name := by
  simp only [List.filter_eq_self, Bool.not_eq_true', isMarker_eq_false_iff]

theorem not_endsIn_of_mem_filter {name : String} {as : List Attribute} {a : Attribute}
    (h : a ∈ as.filter fun a => !a.isMarker name) : ¬ a.EndsIn name :=
  (isMarker_eq_false_iff a name).mp (Bool.not_eq_true' _ ▸ (List.mem_filter.mp h).2)

end Attribute

/-- The second method is the first without the markers of a command among its attributes. -/
structure Method.Unmarks (m m' : Method) : Prop where
  attributes : Attribute.Unmarks commandMarker m.attributes m'.attributes
  qualifiers : m'.qualifiers = m.qualifiers
  signature : m'.signature = m.signature
  statements : m'.statements = m.statements
  bodySpan : m'.bodySpan = m.bodySpan

/-- A method without its markers; another member as it is. -/
inductive Member.Unmarks : Member → Member → Prop
  | method {m m' : Method} (h : m.Unmarks m') : Unmarks (.method m) (.method m')
  | other (ts : List TokenTree) : Unmarks (.other ts) (.other ts)

/-- The second block is the first without the markers of a bot among its attributes and those of a
command among the attributes of its methods. -/
structure ImplBlock.Unmarks (b b' : ImplBlock) : Prop where
  attributes : Attribute.Unmarks botMarker b.attributes b'.attributes
  members : List.Forall₂ Member.Unmarks b.members b'.members
  words : b'.words = b.words
  generics : b'.generics = b.generics
  implemented : b'.implemented = b.implemented
  selfType : b'.selfType = b.selfType
  clause : b'.clause = b.clause
  bodySpan : b'.bodySpan = b.bodySpan

/-! ## What cuts it -/

theorem Method.unmarks_iff {m m' : Method} : m.Unmarks m' ↔ m' = m.withoutMarkers := by
  constructor
  · intro h
    obtain ⟨attributes, qualifiers, signature, statements, bodySpan⟩ := m'
    obtain ⟨hattributes, rfl, rfl, rfl, rfl⟩ := h
    rw [withoutMarkers, ← Attribute.unmarks_iff.mp hattributes]
  · rintro rfl
    exact ⟨Attribute.unmarks_iff.mpr rfl, rfl, rfl, rfl, rfl⟩

theorem Member.unmarks_iff {m m' : Member} : m.Unmarks m' ↔ m.withoutMarkers = m' := by
  constructor
  · rintro (h | ts)
    · rw [withoutMarkers, Method.unmarks_iff.mp h]
    · rfl
  · rintro rfl
    cases m with
    | method m => exact .method (Method.unmarks_iff.mpr rfl)
    | other ts => exact .other ts

theorem ImplBlock.unmarks_iff {b b' : ImplBlock} : b.Unmarks b' ↔ b' = b.withoutMarkers := by
  have hmembers : ∀ ms ms' : List Member,
      List.Forall₂ Member.Unmarks ms ms' ↔ ms' = ms.map Member.withoutMarkers := by
    intro ms ms'
    rw [@eq_comm _ ms', ← List.forall₂_eq_eq_eq, List.forall₂_map_left_iff]
    exact ⟨fun h => h.imp fun _ _ => Member.unmarks_iff.mp,
      fun h => h.imp fun _ _ => Member.unmarks_iff.mpr⟩
  constructor
  · intro h
    obtain ⟨attributes, words, generics, implemented, selfType, clause, members, bodySpan⟩ := b'
    obtain ⟨hattributes, hall, rfl, rfl, rfl, rfl, rfl, rfl⟩ := h
    rw [withoutMarkers, ← Attribute.unmarks_iff.mp hattributes, ← (hmembers _ _).mp hall]
  · rintro rfl
    exact ⟨Attribute.unmarks_iff.mpr rfl, (hmembers _ _).mpr rfl, rfl, rfl, rfl, rfl, rfl, rfl⟩

/-! ## When nothing is cut -/

theorem Method.withoutMarkers_eq_self_iff {m : Method} :
    m.withoutMarkers = m ↔ ∀ a ∈ m.attributes, ¬ a.EndsIn commandMarker := by
  rw [← Attribute.filter_eq_self_iff]
  refine ⟨congrArg Method.attributes, fun h => ?_⟩
  rw [withoutMarkers, h]

theorem Member.withoutMarkers_eq_self_iff {m : Member} :
    m.withoutMarkers = m ↔ ∀ m' ∈ m.method?, m'.withoutMarkers = m' := by
  cases m with
  | method m =>
    rw [withoutMarkers, method.injEq, method?]
    exact ⟨fun h m' hm' => Option.some.inj hm' ▸ h, fun h => h m rfl⟩
  | other ts =>
    refine iff_of_true rfl fun m' h => ?_
    cases h

namespace ImplBlock

theorem withoutMarkers_eq_self_iff {b : ImplBlock} :
    b.withoutMarkers = b ↔
      (∀ a ∈ b.attributes, ¬ a.EndsIn botMarker) ∧
        ∀ m ∈ b.methods, ∀ a ∈ m.attributes, ¬ a.EndsIn commandMarker := by
  have hmembers : b.members.map Member.withoutMarkers = b.members ↔
      ∀ m ∈ b.methods, ∀ a ∈ m.attributes, ¬ a.EndsIn commandMarker := by
    have hmap := List.map_inj_left (f := Member.withoutMarkers) (g := id) (l := b.members)
    rw [List.map_id] at hmap
    rw [hmap, methods]
    simp only [id, List.mem_filterMap, Member.withoutMarkers_eq_self_iff,
      Method.withoutMarkers_eq_self_iff]
    exact ⟨fun h m ⟨c, hc, hm⟩ => h c hc m hm, fun h c hc m hm => h m ⟨c, hc, hm⟩⟩
  rw [← Attribute.filter_eq_self_iff, ← hmembers]
  constructor
  · exact fun h => ⟨congrArg attributes h, congrArg members h⟩
  · rintro ⟨ha, hm⟩
    rw [withoutMarkers, ha, hm]

/-- An inherent block declares a bot just when there is something to cut in it. -/
theorem declaresBot_iff {b : ImplBlock} :
    b.DeclaresBot ↔ b.implemented = none ∧ b.withoutMarkers ≠ b := by
  rw [DeclaresBot, Ne, withoutMarkers_eq_self_iff, not_and_or]
  simp only [not_forall, not_not, exists_prop]

theorem methods_withoutMarkers (b : ImplBlock) :
    b.withoutMarkers.methods = b.methods.map Method.withoutMarkers := by
  rw [methods, methods, withoutMarkers, List.filterMap_map, List.map_filterMap]
  exact congrArg (List.filterMap · b.members) (funext fun m => by cases m <;> rfl)

theorem withoutMarkers_withoutMarkers (b : ImplBlock) :
    b.withoutMarkers.withoutMarkers = b.withoutMarkers := by
  rw [withoutMarkers_eq_self_iff, methods_withoutMarkers, List.forall_mem_map]
  exact ⟨fun a => Attribute.not_endsIn_of_mem_filter, fun m _ a => Attribute.not_endsIn_of_mem_filter⟩

theorem not_declaresBot_withoutMarkers (b : ImplBlock) : ¬ b.withoutMarkers.DeclaresBot :=
  fun h => (declaresBot_iff.mp h).2 b.withoutMarkers_withoutMarkers

end ImplBlock

/-! ## What is left -/

/-- The items around a place, with nothing in it. -/
def BlockPlace.around : BlockPlace → List Item
  | .among before after => before ++ after
  | .inside before name place after => before ++ .module name place.around :: after

namespace Declaration

theorem value_ofItem_block {b : ImplBlock} (h : ¬ b.DeclaresBot) (n : String) (o : Option String) :
    (ofItem n o (.block b)).value = [] := by
  rw [ofItem, if_neg (mt (isCandidate_iff b).mp h)]
  rfl

/-- A block that declares no bot is as good as none, wherever it stands. -/
theorem value_ofItems_fill {b : ImplBlock} (h : ¬ b.DeclaresBot) (place : BlockPlace) (n : String)
    (o : Option String) :
    (ofItems n o (place.fill b)).value = (ofItems n o place.around).value := by
  induction place generalizing n with
  | among before after =>
    rw [BlockPlace.fill, BlockPlace.around, value_ofItems_append, value_ofItems_append,
      value_ofItems_cons, value_ofItem_block h, List.nil_append]
  | inside before name place after ih =>
    rw [BlockPlace.fill, BlockPlace.around, value_ofItems_append, value_ofItems_append,
      value_ofItems_cons, value_ofItems_cons, ofItem_module, ofItem_module, ih]

theorem commandsOf_withoutMarkers (b : ImplBlock) : commandsOf b.withoutMarkers = [] := by
  rw [commandsOf, b.methods_withoutMarkers, List.filter_map]
  simp [Function.comp_def, Method.isCommand_withoutMarkers]

/-- A block without its markers is the same bot without its markers and its commands. -/
theorem value_ofBlock_withoutMarkers (b : ImplBlock) (n : String) (o : Option String) :
    (ofBlock b.withoutMarkers n o).value =
      (ofBlock b n o).value.map fun d =>
        { d with attributes := b.withoutMarkers.attributes, commands := [] } := by
  have hgenerics : b.withoutMarkers.generics = b.generics := rfl
  have htype : b.withoutMarkers.selfType = b.selfType := rfl
  rw [ofBlock, ofBlock, commandsOf_withoutMarkers, hgenerics, htype]
  cases nameOf b.selfType with
  | error f => rfl
  | ok name =>
    dsimp only
    split <;> rfl

end Declaration

theorem Expansion.block_ofAttribute (args : List TokenTree) (b : ImplBlock) :
    (ofAttribute args b).value.block = b.withoutMarkers := by
  rw [ofAttribute, Logged.value_bind]
  cases (Declaration.ofAttribute args b).value <;> rfl

/-- A block without its markers is the one block that keeps all of the first but the attributes
that mark it as a bot or its methods as commands. Another cut changes nothing; an inherent block is
changed just when it declares a bot. What is left declares no bot in a file, whatever stands around
it, and is a bot without commands if it is resolved as one. The bot's attribute leaves this block
behind, whatever its arguments are and whether or not a dispatcher comes of them. -/
theorem ImplBlock.withoutMarkers_exact (b : ImplBlock) :
    (∀ b', b.Unmarks b' ↔ b' = b.withoutMarkers) ∧
    b.withoutMarkers.withoutMarkers = b.withoutMarkers ∧
    (b.DeclaresBot ↔ b.implemented = none ∧ b.withoutMarkers ≠ b) ∧
    (∀ n o,
      (Declaration.ofFile ⟨[.block b.withoutMarkers]⟩ n o).value = [] ∧
      (∀ place : BlockPlace, (Declaration.ofFile ⟨place.fill b.withoutMarkers⟩ n o).value =
        (Declaration.ofFile ⟨place.around⟩ n o).value) ∧
      (Declaration.ofBlock b.withoutMarkers n o).value =
        (Declaration.ofBlock b n o).value.map fun d =>
          { d with attributes := b.withoutMarkers.attributes, commands := [] }) ∧
    ∀ args, (Expansion.ofAttribute args b).value.block = b.withoutMarkers := by
  have hfill := fun place n o =>
    Declaration.value_ofItems_fill b.not_declaresBot_withoutMarkers place n o
  refine ⟨fun b' => unmarks_iff, b.withoutMarkers_withoutMarkers, declaresBot_iff, fun n o => ?_,
    fun args => Expansion.block_ofAttribute args b⟩
  refine ⟨(hfill (.among [] []) n o).trans ?_, fun place => hfill place n o,
    Declaration.value_ofBlock_withoutMarkers b n o⟩
  rw [BlockPlace.around, List.append_nil, Declaration.ofItems_nil]
  rfl

/-- A block with markers behind paths, twice, inside, and where they mark nothing. -/
def manyMarkers : String :=
  "#[magicord::bot] impl Greeter \x7b #![bot] " ++
    "#[doc = \"d\"] #[prefix_command] #[x::prefix_command] fn hello() \x7b #![bot] \x7d " ++
    "#[prefix_command] fn unfinished(); \x7d"

example :
    (ImplBlock.parse? manyMarkers).map (fun b => TokenTree.display b.withoutMarkers.trees) =
      some ("impl Greeter \x7b # [doc = \"d\"] fn hello () \x7b # ! [bot] \x7d " ++
        "# [prefix_command] fn unfinished () ; \x7d") := by
  decide +kernel

end CommandBot
