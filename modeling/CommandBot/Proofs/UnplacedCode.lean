import CommandBot.Bot.Dispatcher
import CommandBot.Proofs.BlindTaking

/-
  The code of a dispatcher without the places of its tokens. What the generator writes stands
  nowhere; forgetting the places of the pieces that a bot brought along gives the code of the
  dispatcher whose pieces stand nowhere (`Dispatcher.unplacedAll_trees`).
-/

namespace CommandBot

open TokenTree Template

/-! ## What the generator writes -/

section
variable (s : List TokenTree)

@[simp] theorem unplacedAll_words (ws : List String) : unplacedAll (words ws) = words ws := by
  induction ws with
  | nil => exact unplacedAll_nil
  | cons w ws ih =>
    have hwords : words (w :: ws) = made w :: words ws := rfl
    rw [hwords, unplacedAll_cons, ih, made, unplaced_word]
    rfl

@[simp] theorem unplacedAll_operator (cs : List Char) : unplacedAll (operator cs) = operator cs := by
  fun_induction operator cs with
  | case1 => exact unplacedAll_nil
  | case2 c => rw [unplacedAll_cons, unplaced_mark, unplacedAll_nil]
  | case3 c cs hne ih => rw [unplacedAll_cons, unplaced_mark, ih]

@[simp] theorem unplacedAll_sign (c : Char) : unplacedAll (sign c) = sign c := unplacedAll_operator [c]

@[simp] theorem unplacedAll_rootPath (ws : List String) : unplacedAll (rootPath ws) = rootPath ws := by
  induction ws with
  | nil => exact unplacedAll_nil
  | cons w ws ih =>
    have hpath : rootPath (w :: ws) = pathMark ++ (words [w] ++ rootPath ws) := rfl
    rw [hpath, unplacedAll_append, unplacedAll_append, ih, unplacedAll_words]
    exact congrArg (· ++ _) (unplacedAll_operator [':', ':'])

@[simp] theorem unplacedAll_textLiteral (text : String) :
    unplacedAll (textLiteral text) = textLiteral text := by
  rw [textLiteral, unplacedAll_cons, unplaced_literal, unplacedAll_nil]

@[simp] theorem unplaced_grouped (d : Delimiter) :
    (grouped d s).unplaced = grouped d (unplacedAll s) := unplaced_group d s .generated

@[simp] theorem unplaced_made (text : String) : (made text).unplaced = made text :=
  unplaced_word (.made text)

@[simp] theorem unplaced_name (w : Word) : (TokenTree.word w).unplaced = .word w.unplaced :=
  unplaced_word w

@[simp] theorem unplacedAll_doc (text : String) : unplacedAll (doc text) = doc text := by
  simp [doc, attributed, brackets, unplacedAll_append, unplacedAll_cons, unplacedAll_nil,
    unplaced_literal]

end

namespace Attribute

theorem unplacedAll_trees (a : Attribute) : unplacedAll a.trees = a.unplaced.trees := by
  have harguments : unplacedAll a.argumentTrees = a.unplaced.argumentTrees := by
    obtain ⟨signs, path, arguments, s⟩ := a
    cases arguments with
    | absent => exact unplacedAll_nil
    | listed d content s' =>
      have htrees : argumentTrees ⟨signs, path, .listed d content s', s⟩ = [.group d content s'] := rfl
      rw [htrees, unplacedAll_cons, unplaced_group, unplacedAll_nil]
      rfl
    | assigned equals value => exact unplacedAll_append equals value
  rw [trees, unplacedAll_append, unplacedAll_cons, unplaced_group, unplacedAll_append,
    unplacedAll_nil, harguments]
  rfl

end Attribute

/-! ## Dispatchers without places -/

def Delegate.unplaced : Delegate → Delegate
  | .instance_ => .instance_
  | .associated owner => .associated owner.unplaced

def Handler.unplaced (h : Handler) : Handler where
  name := h.name.unplaced
  delegate := h.delegate.unplaced
  forwardsEvent := h.forwardsEvent
  output := unplacedAll h.output
  docs := h.docs.map Attribute.unplaced

def Arm.unplaced (a : Arm) : Arm := ⟨a.key, a.handler.unplaced⟩

def DispatchTable.unplaced (t : DispatchTable) : DispatchTable := ⟨t.arms.map Arm.unplaced⟩

/-- A dispatcher whose pieces stand nowhere. -/
def Dispatcher.unplaced (u : Dispatcher) : Dispatcher :=
  { u with
    sourceType := u.sourceType.unplaced
    handlers := u.handlers.map Handler.unplaced
    table := u.table.unplaced }

theorem unplacedAll_flatMap {α : Type} (as : List α) (trees : α → List TokenTree) :
    unplacedAll (as.flatMap trees) = as.flatMap fun a => unplacedAll (trees a) := by
  induction as with
  | nil => exact unplacedAll_nil
  | cons a as ih => rw [List.flatMap_cons, List.flatMap_cons, unplacedAll_append, ih]

theorem Handler.unplacedAll_trees (h : Handler) : unplacedAll h.trees = h.unplaced.trees := by
  have hdocs : unplacedAll (Attribute.treesOf h.docs) = Attribute.treesOf h.unplaced.docs := by
    rw [Attribute.treesOf, unplacedAll_flatMap, Handler.unplaced, Attribute.treesOf, List.flatMap_map]
    exact congrArg (List.flatMap · h.docs) (funext Attribute.unplacedAll_trees)
  have hcall : unplacedAll h.callTrees = h.unplaced.callTrees := by
    obtain ⟨name, delegate, forwardsEvent, output, docs⟩ := h
    cases delegate <;> cases forwardsEvent <;>
      simp [callTrees, Handler.unplaced, Delegate.unplaced, arguments, dot, pathMark, parens, angles,
        unplacedAll_append, unplacedAll_cons, unplacedAll_nil, WrittenType.unplaced]
  rw [trees, trees]
  simp only [unplacedAll_append, hdocs]
  cases hevent : h.forwardsEvent <;>
    simp [parens, braces, hcall, receiver, comma, library, unplacedAll_append, unplacedAll_cons,
      unplacedAll_nil, Handler.unplaced, hevent]

theorem DispatchTable.unplacedAll_trees (t : DispatchTable) :
    unplacedAll t.trees = t.unplaced.trees := by
  have harm : ∀ a : Arm, unplacedAll (armTrees a) = armTrees a.unplaced := by
    intro a
    simp [armTrees, armBody, Arm.unplaced, fatArrow, call, dot, comma, library, parens, braces,
      unplacedAll_append, unplacedAll_cons, unplacedAll_nil]
  have harms : unplacedAll (t.arms.flatMap armTrees) = t.unplaced.arms.flatMap armTrees := by
    rw [unplacedAll_flatMap, DispatchTable.unplaced, List.flatMap_map]
    exact congrArg (List.flatMap · t.arms) (funext harm)
  have hkeys : t.unplaced.keys = t.keys := by
    rw [keys, keys, DispatchTable.unplaced, List.map_map]
    rfl
  have hallowance : unplacedAll t.allowance = t.unplaced.allowance := by
    unfold allowance duplicateKeys
    rw [hkeys]
    split <;> simp [attributed, brackets, parens, unplacedAll_append, unplacedAll_cons, unplacedAll_nil]
  simp [trees, matchTrees, otherwise, parens, braces, receiver, comma, library, call, dot, fatArrow,
    unplacedAll_append, unplacedAll_cons, unplacedAll_nil, harms, hallowance]

theorem Dispatcher.unplacedAll_trees (u : Dispatcher) : unplacedAll u.trees = u.unplaced.trees := by
  have hhandlers : unplacedAll (u.handlers.flatMap Handler.trees) =
      u.unplaced.handlers.flatMap Handler.trees := by
    rw [unplacedAll_flatMap, Dispatcher.unplaced, List.flatMap_map]
    exact congrArg (List.flatMap · u.handlers) (funext Handler.unplacedAll_trees)
  have htoken : unplacedAll u.tokenTrees = u.unplaced.tokenTrees := by
    obtain ⟨n, name, sourceName, sourceType, token, handlers, table, origin⟩ := u
    cases token <;>
      simp [tokenTrees, Dispatcher.unplaced, parens, braces, call, dot, comma, library,
        unplacedAll_append, unplacedAll_cons, unplacedAll_nil]
  have hstruct : unplacedAll u.structTrees = u.unplaced.structTrees := by
    have hdoc : u.unplaced.typeDoc = u.typeDoc := rfl
    have hname : u.unplaced.name = u.name := rfl
    have htype : u.unplaced.sourceType.trees = unplacedAll u.sourceType.trees := rfl
    simp only [structTrees, hdoc, hname, htype, attributed, brackets, braces, comma,
      unplacedAll_append, unplacedAll_cons, unplacedAll_nil, unplacedAll_words, unplacedAll_sign,
      unplacedAll_textLiteral, unplaced_grouped]
  have hnew : unplacedAll u.newTrees = u.unplaced.newTrees := by
    simp [newTrees, Dispatcher.unplaced, parens, braces, arrow, angles, pathMark, comma,
      unplacedAll_append, unplacedAll_cons, unplacedAll_nil, WrittenType.unplaced]
  have hbot : unplacedAll u.botTrees = u.unplaced.botTrees := by
    simp [botTrees, Dispatcher.unplaced, parens, braces, arrow, receiver, dot,
      unplacedAll_append, unplacedAll_cons, unplacedAll_nil, WrittenType.unplaced]
  have hrun : unplacedAll runTrees = runTrees := by
    simp [runTrees, parens, braces, arrow, clientResult, angles, library, call, dot,
      unplacedAll_append, unplacedAll_cons, unplacedAll_nil]
  have hrunWith : unplacedAll u.runWithTrees = u.unplaced.runWithTrees := by
    simp [runWithTrees, parens, braces, arrow, clientResult, angles, library, call, dot, comma, htoken,
      unplacedAll_append, unplacedAll_cons, unplacedAll_nil, Dispatcher.unplaced]
  have hdefault : unplacedAll u.defaultTrees = u.unplaced.defaultTrees := by
    simp [defaultTrees, parens, braces, arrow, pathMark,
      unplacedAll_append, unplacedAll_cons, unplacedAll_nil, Dispatcher.unplaced]
  have himpl : unplacedAll u.implTrees = u.unplaced.implTrees := by
    simp only [implTrees, braces, unplacedAll_append, unplacedAll_words, unplacedAll_cons,
      unplacedAll_nil, unplaced_grouped,
     hnew, hbot, hrun, hrunWith, hhandlers, u.table.unplacedAll_trees]
    rfl
  rw [trees, unplacedAll_append, unplacedAll_append, hstruct, himpl, hdefault]
  rfl

end CommandBot
