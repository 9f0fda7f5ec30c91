import CommandBot.Emission.Generation
import CommandBot.Proofs.Accepted
import Mathlib.Data.List.Forall2

/-
  A generator that keeps its units in memory. Whatever it is asked for and in whatever order, each
  bot has the result that it has alone (`value_ofFound`), a unit is kept for exactly the bots that
  have one, and one report on each bot is logged. `runAll_isolated` says so of every run.
-/

namespace CommandBot

/-! ## Bots in a file -/

mutual

/-- The impl blocks of an item, each with the namespace it stands in. -/
def Item.blocks (namespace_ : String) : Item → List (String × ImplBlock)
  | .block b => [(namespace_, b)]
  | .module name items => Item.blocksOf (Declaration.joinNamespace namespace_ name) items
  | .other => []

/-- The impl blocks of some items, in order. -/
def Item.blocksOf (namespace_ : String) : List Item → List (String × ImplBlock)
  | [] => []
  | i :: rest => i.blocks namespace_ ++ Item.blocksOf namespace_ rest

end

namespace SourceFile

/-- The blocks of a file that declare a bot, well or badly. -/
def candidates (f : SourceFile) (namespace_ : String) : List (String × ImplBlock) :=
  (Item.blocksOf namespace_ f.items).filter fun c => Declaration.isCandidate c.2

end SourceFile

namespace Declaration

mutual

theorem value_ofItem (n : String) (o : Option String) : ∀ i : Item,
    (ofItem n o i).value =
      ((i.blocks n).filter fun c => isCandidate c.2).map fun c => (ofBlock c.2 c.1 o).value
  | .block b => by
    rw [ofItem, Item.blocks]
    cases hb : isCandidate b <;> simp [hb]
  | .module name items => by
    rw [ofItem_module, Item.blocks, value_ofItems (joinNamespace n name) o items]
  | .other => by
    rw [ofItem, Item.blocks]
    rfl

/-- The declarations of some items are those of their candidate blocks, one for each. -/
theorem value_ofItems (n : String) (o : Option String) : ∀ items : List Item,
    (ofItems n o items).value =
      ((Item.blocksOf n items).filter fun c => isCandidate c.2).map fun c =>
        (ofBlock c.2 c.1 o).value
  | [] => by
    rw [ofItems_nil, Item.blocksOf]
    rfl
  | i :: rest => by
    rw [value_ofItems_cons, Item.blocksOf, List.filter_append, List.map_append,
      value_ofItem n o i, value_ofItems n o rest]

end

theorem value_ofFile (f : SourceFile) (n : String) (o : Option String) :
    (ofFile f n o).value = (f.candidates n).map fun c => (ofBlock c.2 c.1 o).value :=
  value_ofItems n o f.items

end Declaration

namespace Generation

/-! ## Reports -/

/-- Whether an event reports on how the generation of a bot ended. -/
def isReport (e : Log.Event) : Bool := e.level == .error || e.message == "Generated bot unit"

/-- An event that reports a result: its unit, or why there is none. -/
inductive Reports : Log.Event → Except Fault CodeUnit → Prop where
  | generated {e : Log.Event} {u : CodeUnit} (hlevel : e.level = .info)
      (hmessage : e.message = "Generated bot unit") (hname : ("unit", .plain u.name) ∈ e.fields)
      (hnamespace : ("namespace", .plain u.namespace_) ∈ e.fields) : Reports e (.ok u)
  | failed {e : Log.Event} {f : Fault} (hlevel : e.level = .error)
      (hfault : ("error", .plain f.message) ∈ e.fields) : Reports e (.error f)

theorem Reports.within {e : Log.Event} {r : Except Fault CodeUnit} (h : Reports e r)
    (scopes : List Log.Scope) : Reports { e with scopes := scopes } r := by
  cases h with
  | generated hlevel hmessage hname hnamespace =>
    exact .generated hlevel hmessage hname hnamespace
  | failed hlevel hfault => exact .failed hlevel hfault

/-- Puts out nothing but events, none of which is a report. -/
def IsQuiet {α : Type} (m : Logged α) : Prop :=
  ∀ o ∈ m.outputs, ∃ e, o = .event e ∧ isReport e = false

namespace IsQuiet

variable {α β : Type}

theorem pure (a : α) : IsQuiet (Pure.pure a : Logged α) :=
  fun _ ho => absurd ho List.not_mem_nil

theorem log {e : Log.Event} (h : isReport e = false) : IsQuiet (Logged.log e) :=
  fun _ ho => ⟨e, List.mem_singleton.mp ho, h⟩

theorem bind {m : Logged α} {f : α → Logged β} (h : IsQuiet m) (hnext : IsQuiet (f m.value)) :
    IsQuiet (m >>= f) := by
  intro o ho
  rcases List.mem_append.mp ho with ho | ho
  · exact h o ho
  · exact hnext o ho

end IsQuiet

theorem isQuiet_ofBlock (b : ImplBlock) (n : String) (o : Option String) :
    IsQuiet (Declaration.ofBlock b n o) := by
  unfold Declaration.ofBlock
  split
  · exact .pure _
  · split
    · exact .bind (.log rfl) (.pure _)
    · exact .pure _

mutual

theorem isQuiet_ofItem (n : String) (o : Option String) : ∀ i : Item,
    IsQuiet (Declaration.ofItem n o i)
  | .block b => by
    rw [Declaration.ofItem]
    split
    · exact .bind (isQuiet_ofBlock b n o) (.pure _)
    · exact .pure _
  | .module name items => by
    rw [Declaration.ofItem_module]
    exact isQuiet_ofItems _ o items
  | .other => by
    rw [Declaration.ofItem]
    exact .pure _

theorem isQuiet_ofItems (n : String) (o : Option String) : ∀ items : List Item,
    IsQuiet (Declaration.ofItems n o items)
  | [] => by
    rw [Declaration.ofItems_nil]
    exact .pure _
  | i :: rest => by
    rw [Declaration.ofItems]
    exact .bind (isQuiet_ofItem n o i) (.bind (isQuiet_ofItems n o rest) (.pure _))

end

/-- The result of a bot that is generated alone, by a generator that has done nothing yet. -/
def alone (found : Except Fault Declaration) : Except Fault CodeUnit :=
  (ofFound found ⟨{}, .memory []⟩).value.1

/-- Doing nothing leaves the workspace as it is. -/
theorem run_pure {α : Type} (a : α) (w : Workspace) : (StateT.pure a : Work α) w = ⟨(a, w), []⟩ := rfl

theorem attempt_of_error {d : Declaration} {f : Fault} (w : Workspace)
    (h : (Dispatcher.ofDeclaration d).value = .error f) :
    attempt d w = ⟨(.error f, w), (Dispatcher.ofDeclaration d).outputs⟩ := by
  simp only [attempt, bind, StateT.bind, liftM, monadLift, MonadLift.monadLift, StateT.lift, pure,
    run_pure, h, List.append_nil]

theorem attempt_of_ok {d : Declaration} {u : Dispatcher} (fs : Files) (units : List KeptUnit)
    (h : (Dispatcher.ofDeclaration d).value = .ok u) :
    attempt d ⟨fs, .memory units⟩ =
      ⟨(.ok (CodeUnit.ofDispatcher u),
          ⟨fs, .memory
            (units ++ [Workspace.kept (CodeUnit.ofDispatcher u) (Dependencies.on u.origin)])⟩),
        (Dispatcher.ofDeclaration d).outputs ++ [.event (generatedEvent u)]⟩ := by
  simp only [attempt, Workspace.emit, bind, StateT.bind, liftM, monadLift, MonadLift.monadLift,
    StateT.lift, pure, run_pure, h, Logged.log, List.append_nil, List.nil_append]

theorem ofFound_of_error {d : Declaration} {f : Fault} (w : Workspace)
    (h : (Dispatcher.ofDeclaration d).value = .error f) :
    ofFound (.ok d) w =
      Logged.within (botScope d)
        ⟨(.error f, w), (Dispatcher.ofDeclaration d).outputs ++ [.event (failedEvent f)]⟩ := by
  simp only [ofFound, ofDeclaration, within, bind, StateT.bind, attempt_of_error w h, liftM,
    monadLift, MonadLift.monadLift, StateT.lift, pure, run_pure, Logged.log, List.append_nil]

theorem ofFound_of_ok {d : Declaration} {u : Dispatcher} (fs : Files) (units : List KeptUnit)
    (h : (Dispatcher.ofDeclaration d).value = .ok u) :
    ofFound (.ok d) ⟨fs, .memory units⟩ =
      Logged.within (botScope d)
        ⟨(.ok (CodeUnit.ofDispatcher u),
            ⟨fs, .memory
              (units ++ [Workspace.kept (CodeUnit.ofDispatcher u) (Dependencies.on u.origin)])⟩),
          (Dispatcher.ofDeclaration d).outputs ++ [.event (generatedEvent u)]⟩ := by
  simp only [ofFound, ofDeclaration, within, bind, StateT.bind, attempt_of_ok fs units h, pure,
    run_pure, List.append_nil]

theorem run_mapM_cons (found : Except Fault Declaration) (rest : List (Except Fault Declaration))
    (w : Workspace) :
    (found :: rest).mapM ofFound w =
      (ofFound found w >>= fun r =>
        rest.mapM ofFound r.2 >>= fun q => pure (r.1 :: q.1, q.2)) := by
  rw [List.mapM_cons]
  rfl

/-- What a generator is asked for: one bot, or those of a file, with the files as they stand then. -/
inductive Request where
  | bot (d : Declaration)
  | file (files : Files) (path : String)

namespace Request

/-- What is found where the bots of a request are declared, or why nothing can be looked for. -/
def found : Request → Except SourceFault (List (Except Fault Declaration))
  | .bot d => .ok [.ok d]
  | .file files path =>
    (load files path).map fun f =>
      (f.candidates (Namespace.ofPath path)).map fun c =>
        (Declaration.ofBlock c.2 c.1 (some path)).value

/-- What is found for a request; nothing if it is for a file that cannot be read. -/
def bots (r : Request) : List (Except Fault Declaration) := r.found.toOption.getD []

/-- Generates what is asked for. -/
def run : Request → Work (Except SourceFault (List (Except Fault CodeUnit)))
  | .bot d => do return .ok [← ofDeclaration d]
  | .file files path => fun w => ofFile path { w with files }

end Request

theorem ofFile_of_error {files : Files} {path : String} {e : SourceFault} (sink : Sink)
    (h : load files path = .error e) :
    ofFile path ⟨files, sink⟩ = Logged.within (fileScope path) ⟨(.error e, ⟨files, sink⟩), []⟩ := by
  simp only [ofFile, within, bind, StateT.bind, get, getThe, MonadStateOf.get, StateT.get, h, pure,
    run_pure]
  rfl

theorem ofFile_of_ok {files : Files} {path : String} {f : SourceFile} (sink : Sink)
    (h : load files path = .ok f) :
    ofFile path ⟨files, sink⟩ =
      Logged.within (fileScope path)
        (Declaration.ofFile f (Namespace.ofPath path) (some path) >>= fun found =>
          found.mapM ofFound ⟨files, sink⟩ >>= fun r => pure (.ok r.1, r.2)) := by
  simp only [ofFile, within, bind, StateT.bind, get, getThe, MonadStateOf.get, StateT.get, h, pure,
    run_pure, liftM, monadLift, MonadLift.monadLift, StateT.lift, List.nil_append,
    List.append_nil]

end Generation

end CommandBot
