import CommandBot.Proofs.Isolation
import CommandBot.Proofs.LegibleParts

/-
  The bots of a file, by where their blocks stand. `Item.located` pairs each block with the names of
  the modules around it; the generator carries one namespace down instead and joins a name to it at
  each module, which comes to the same since no module of a file has an empty name. `BlockPlace` is
  what stands around a block. `ofFile_by_place`: a file has one bot for each block that declares one,
  as that block declares it in its own modules, and no bot depends on what stands elsewhere.
-/

namespace CommandBot

/-! ## Blocks that declare a bot -/

/-- The block is for a type alone, and an attribute marks it as a bot or one of its methods as a
command. -/
def ImplBlock.DeclaresBot (b : ImplBlock) : Prop :=
  b.implemented = none ∧
    ((∃ a ∈ b.attributes, a.EndsIn botMarker) ∨
      ∃ m ∈ b.methods, ∃ a ∈ m.attributes, a.EndsIn commandMarker)

theorem Declaration.isCandidate_iff (b : ImplBlock) : isCandidate b = true ↔ b.DeclaresBot := by
  simp only [isCandidate, Method.isCommand, ImplBlock.DeclaresBot, Bool.and_eq_true,
    Bool.or_eq_true, Option.isNone_iff_eq_none, List.any_eq_true, Attribute.isMarker_iff]

instance (b : ImplBlock) : Decidable b.DeclaresBot :=
  decidable_of_iff _ (Declaration.isCandidate_iff b)

/-! ## Where blocks stand -/

namespace Item

mutual

/-- The impl blocks of an item, in order, each with the names of the modules around it, outermost
first. -/
def located : Item → List (List String × ImplBlock)
  | .block b => [([], b)]
  | .module name items => (locatedAll items).map fun p => (name :: p.1, p.2)
  | .other => []

def locatedAll : List Item → List (List String × ImplBlock)
  | [] => []
  | i :: rest => i.located ++ locatedAll rest

end

theorem locatedAll_append (s t : List Item) : locatedAll (s ++ t) = locatedAll s ++ locatedAll t := by
  induction s with
  | nil => rfl
  | cons i s ih => rw [List.cons_append, locatedAll, locatedAll, ih, List.append_assoc]

mutual

/-- The namespace of a block is what the names around it are joined to, one after the other. -/
theorem blocks_eq (n : String) : ∀ i : Item,
    i.blocks n = i.located.map fun p => (p.1.foldl Declaration.joinNamespace n, p.2)
  | .block b => by rw [blocks, located, List.map_singleton, List.foldl_nil]
  | .module name items => by
    rw [blocks, located, blocksOf_eq (Declaration.joinNamespace n name) items, List.map_map]
    rfl
  | .other => by rw [blocks, located, List.map_nil]

theorem blocksOf_eq (n : String) : ∀ items : List Item,
    blocksOf n items = (locatedAll items).map fun p => (p.1.foldl Declaration.joinNamespace n, p.2)
  | [] => rfl
  | i :: rest => by rw [blocksOf, locatedAll, List.map_append, blocks_eq n i, blocksOf_eq n rest]

end

mutual

theorem IsLegible.names_ne_empty : ∀ {i : Item}, i.IsLegible → ∀ p ∈ i.located, "" ∉ p.1
  | .block b, _ => by
    rw [located]
    exact List.forall_mem_singleton.mpr List.not_mem_nil
  | .module name items, h => by
    rw [located, List.forall_mem_map]
    obtain ⟨hname, hitems⟩ : (Piece.word name).IsSound ∧ ∀ i ∈ items, i.IsLegible := by
      cases h with
      | module hname hitems => exact ⟨hname, hitems⟩
    intro p hp
    rw [List.mem_cons, not_or]
    refine ⟨?_, names_ne_empty_of_all hitems p hp⟩
    rintro rfl
    exact Bool.false_ne_true hname
  | .other, _ => by
    rw [located]
    exact fun p hp => absurd hp List.not_mem_nil

theorem names_ne_empty_of_all : ∀ {items : List Item}, (∀ i ∈ items, i.IsLegible) →
    ∀ p ∈ locatedAll items, "" ∉ p.1
  | [], _ => fun p hp => absurd hp List.not_mem_nil
  | i :: rest, h => by
    rw [List.forall_mem_cons] at h
    rw [locatedAll]
    intro p hp
    rcases List.mem_append.mp hp with hp | hp
    · exact h.1.names_ne_empty p hp
    · exact names_ne_empty_of_all h.2 p hp

end

end Item

/-- A place for a block among some items: between others, or in a module between others. -/
inductive BlockPlace where
  | among (before after : List Item)
  | inside (before : List Item) (name : String) (place : BlockPlace) (after : List Item)

namespace BlockPlace

/-- The items with a block in the place. -/
def fill (b : ImplBlock) : BlockPlace → List Item
  | .among before after => before ++ .block b :: after
  | .inside before name place after => before ++ .module name (place.fill b) :: after

/-- The names of the modules around the place. -/
def modules : BlockPlace → List String
  | .among _ _ => []
  | .inside _ name place _ => name :: place.modules

/-- What stands around a block is located the same whatever the block. -/
theorem exists_locatedAll_fill (place : BlockPlace) :
    ∃ earlier later, ∀ b,
      Item.locatedAll (place.fill b) = earlier ++ (place.modules, b) :: later := by
  induction place with
  | among before after =>
    refine ⟨Item.locatedAll before, Item.locatedAll after, fun b => ?_⟩
    rw [fill, Item.locatedAll_append, Item.locatedAll, Item.located]
    rfl
  | inside before name place after ih =>
    obtain ⟨earlier, later, h⟩ := ih
    refine ⟨Item.locatedAll before ++ earlier.map fun p => (name :: p.1, p.2),
      (later.map fun p => (name :: p.1, p.2)) ++ Item.locatedAll after, fun b => ?_⟩
    rw [fill, Item.locatedAll_append, Item.locatedAll, Item.located, h, List.map_append,
      List.map_cons, List.append_assoc, List.append_assoc]
    rfl

end BlockPlace

/-! ## Namespaces -/

namespace Namespace

/-- A namespace with the names of modules behind it; the empty one is no name itself. -/
def extended (n : String) (path : List String) : String :=
  "::".intercalate ((if n.isEmpty then [] else [n]) ++ path)

theorem extended_nil (n : String) : extended n [] = n := by
  unfold extended
  split
  · rename_i h
    rw [String.isEmpty_iff.mp h]
    rfl
  · rfl

theorem joinNamespace_eq (n name : String) :
    Declaration.joinNamespace n name = extended n [name] := by
  unfold Declaration.joinNamespace extended
  split <;> rfl

/-- A name that is not empty may be put to the namespace first. -/
theorem extended_extended {name : String} (h : name ≠ "") (n : String) (path : List String) :
    extended (extended n [name]) path = extended n (name :: path) := by
  have hjoined : (extended n [name]).isEmpty = false := by
    rw [String.isEmpty_eq_false_iff, ← joinNamespace_eq, Declaration.joinNamespace]
    split
    · exact h
    · simp
  rw [extended, hjoined]
  by_cases hn : n.isEmpty = true
  · simp only [extended, hn]
    rfl
  · simp only [extended, hn]
    rfl

/-- Names joined one after the other are the namespace with all of them behind it. -/
theorem foldl_joinNamespace {path : List String} (h : "" ∉ path) (n : String) :
    path.foldl Declaration.joinNamespace n = extended n path := by
  induction path generalizing n with
  | nil => exact (extended_nil n).symm
  | cons name path ih =>
    obtain ⟨hname, hpath⟩ := not_or.mp (mt List.mem_cons.mpr h)
    rw [List.foldl_cons, ih hpath, joinNamespace_eq, extended_extended (Ne.symm hname)]

end Namespace

/-! ## The bots of a file -/

namespace Declaration

open Namespace (extended)

/-- What the blocks among these declare, each in its modules. -/
def declared (n : String) (o : Option String) (ps : List (List String × ImplBlock)) :
    List (Except Fault Declaration) :=
  (ps.filter fun p => p.2.DeclaresBot).map fun p => (ofBlock p.2 (extended n p.1) o).value

theorem value_ofItems_located {items : List Item} (h : ∀ p ∈ Item.locatedAll items, "" ∉ p.1)
    (n : String) (o : Option String) :
    (ofItems n o items).value = declared n o (Item.locatedAll items) := by
  have hcandidate : ∀ b, isCandidate b = decide b.DeclaresBot := fun b =>
    Bool.eq_iff_iff.mpr ((isCandidate_iff b).trans decide_eq_true_iff.symm)
  rw [value_ofItems, Item.blocksOf_eq, List.filter_map, List.map_map, declared]
  simp only [Function.comp_def, hcandidate]
  refine List.map_congr_left fun p hp => ?_
  rw [Namespace.foldl_joinNamespace (h p (List.mem_filter.mp hp).1)]

theorem declared_append (n : String) (o : Option String) (ps qs : List (List String × ImplBlock)) :
    declared n o (ps ++ qs) = declared n o ps ++ declared n o qs := by
  rw [declared, List.filter_append, List.map_append]
  rfl

/-- Another block in the place of one changes what is declared there, and nothing else. -/
theorem exists_value_ofItems_fill {place : BlockPlace} {b : ImplBlock}
    (h : ∀ p ∈ Item.locatedAll (place.fill b), "" ∉ p.1) (n : String) (o : Option String) :
    ∃ earlier later, ∀ b',
      (ofItems n o (place.fill b')).value =
        earlier ++ declared n o [(place.modules, b')] ++ later := by
  obtain ⟨earlier, later, hfill⟩ := place.exists_locatedAll_fill
  refine ⟨declared n o earlier, declared n o later, fun b' => ?_⟩
  have hnames : ∀ p ∈ Item.locatedAll (place.fill b'), "" ∉ p.1 := by
    rw [hfill, List.forall_mem_append, List.forall_mem_cons] at h ⊢
    exact h
  rw [value_ofItems_located hnames, hfill, ← List.singleton_append, declared_append,
    declared_append, List.append_assoc]

/-- The same bot in another namespace. -/
def inNamespace (n : String) (d : Declaration) : Declaration := { d with namespace_ := n }

theorem value_ofBlock_inNamespace (b : ImplBlock) (n m : String) (o : Option String) :
    (ofBlock b n o).value.map (inNamespace m) = (ofBlock b m o).value := by
  unfold ofBlock
  split
  · rfl
  · split <;> rfl

/-- In their own namespaces aside, the bots of some items are the same in every namespace. -/
theorem value_ofItems_inNamespace (items : List Item) (n n' m : String) (o : Option String) :
    (ofItems n o items).value.map (Except.map (inNamespace m)) =
      (ofItems n' o items).value.map (Except.map (inNamespace m)) := by
  rw [value_ofItems, value_ofItems, Item.blocksOf_eq, Item.blocksOf_eq]
  simp only [List.filter_map, List.map_map, Function.comp_def, value_ofBlock_inNamespace]

/-- A file has one bot for each block that declares one, in order, which is what the block declares
in the modules that it stands in. So the bots of some items and of those behind them are put one
after the other; items in a module have its name in their namespace and are the same otherwise; and
another block in the place of one changes what is declared there and nothing else. -/
theorem ofFile_by_place {text : String} {f : SourceFile} (hf : SourceFile.parse? text = some f)
    (n : String) (o : Option String) :
    (ofFile f n o).value =
      ((Item.locatedAll f.items).filter fun p => p.2.DeclaresBot).map
        (fun p => (ofBlock p.2 (extended n p.1) o).value) ∧
    (∀ s t, (ofFile ⟨s ++ t⟩ n o).value = (ofFile ⟨s⟩ n o).value ++ (ofFile ⟨t⟩ n o).value) ∧
    (∀ name items,
      (ofFile ⟨[.module name items]⟩ n o).value = (ofFile ⟨items⟩ (extended n [name]) o).value ∧
        ∀ m, (ofFile ⟨[.module name items]⟩ n o).value.map (Except.map (inNamespace m)) =
          (ofFile ⟨items⟩ n o).value.map (Except.map (inNamespace m))) ∧
    ∀ place b, f.items = BlockPlace.fill b place → ∃ earlier later, ∀ b',
      (ofFile ⟨place.fill b'⟩ n o).value =
        earlier ++
          (if b'.DeclaresBot then [(ofBlock b' (extended n place.modules) o).value] else []) ++
          later := by
  have hnames : ∀ p ∈ Item.locatedAll f.items, "" ∉ p.1 :=
    Item.names_ne_empty_of_all (SourceFile.isLegible_of_parse? hf)
  refine ⟨value_ofItems_located hnames n o, value_ofItems_append n o, fun name items => ?_, ?_⟩
  · have hmodule : (ofItems n o [.module name items]).value =
        (ofItems (extended n [name]) o items).value := by
      rw [value_ofItems_cons, ofItem_module, ofItems_nil, Namespace.joinNamespace_eq]
      exact List.append_nil _
    exact ⟨hmodule, fun m => (congrArg _ hmodule).trans (value_ofItems_inNamespace items _ n m o)⟩
  · intro place b hplace
    rw [hplace] at hnames
    obtain ⟨earlier, later, hfill⟩ := exists_value_ofItems_fill hnames n o
    refine ⟨earlier, later, fun b' => ?_⟩
    have hone : declared n o [(place.modules, b')] =
        if b'.DeclaresBot then [(ofBlock b' (extended n place.modules) o).value] else [] := by
      by_cases hb : b'.DeclaresBot <;> simp [declared, hb]
    rw [← hone]
    exact hfill b'

/-- A file with a bot, a module with a block for a trait and with a function, and a bot two modules
further in. -/
def nestedBots : String :=
  "#[bot(token = \"t\")] impl Greeter \x7b\x7d mod admin \x7b " ++
    "#[bot] impl Clone for Greeter \x7b\x7d fn main() \x7b\x7d mod rooms \x7b " ++
    "impl Keeper \x7b #[prefix_command] fn open(&self) \x7b\x7d \x7d \x7d \x7d"

theorem ofFile_by_place_nested :
    ∃ f : SourceFile, SourceFile.parse? nestedBots = some f ∧
      (ofFile f "app" none).value.map (fun r => r.toOption.map fun d => (d.namespace_, d.name.text)) =
        [some ("app", "Greeter"), some ("app::admin::rooms", "Keeper")] := by
  have hall : (SourceFile.parse? nestedBots).any (fun f =>
      (((Item.locatedAll f.items).filter fun p => p.2.DeclaresBot).map fun p =>
        (ofBlock p.2 (extended "app" p.1) none).value.toOption.map fun d =>
          (d.namespace_, d.name.text)) ==
        [some ("app", "Greeter"), some ("app::admin::rooms", "Keeper")]) = true := by
    decide +kernel
  obtain ⟨f, hf, hvalue⟩ := (Option.any_eq_true _ _).mp hall
  refine ⟨f, hf, ?_⟩
  rw [(ofFile_by_place hf "app" none).1, List.map_map]
  exact eq_of_beq hvalue

end Declaration

end CommandBot
