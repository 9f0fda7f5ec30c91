import CommandBot.Bot.Dispatcher

/-
  Declarations that a dispatcher is generated for. A declaration is accepted exactly when each of its
  commands keeps the contract of a handler and its attributes choose a token source
  (`ofDeclaration_eq_ok_iff`); the dispatcher then has one handler for each command, in the order of
  the commands, and its table one arm for each handler.
-/

namespace CommandBot

namespace Handler

theorem value_ofCommand (c : Command) :
    (ofCommand c).value =
      match fault? c.signature with
      | some (fault, span) =>
        .error (.malformed c.owner.display (.command c.name.text fault) span)
      | none => .ok (ofSound c) := by
  unfold ofCommand
  cases fault? c.signature <;> rfl

theorem ofCommand_eq_ok_iff (c : Command) (h : Handler) :
    (ofCommand c).value = .ok h ↔ fault? c.signature = none ∧ h = ofSound c := by
  rw [value_ofCommand]
  cases hf : fault? c.signature with
  | none => simp [eq_comm]
  | some f => simp

/-- A signature that keeps the contract has a result. -/
theorem exists_output {s : Signature} (h : fault? s = none) : ∃ r, s.output = some r := by
  have houtput : outputFault? s = none :=
    (Option.or_eq_none_iff.mp (Option.or_eq_none_iff.mp h).2).1
  unfold outputFault? at houtput
  cases hcase : s.output with
  | none =>
    rw [hcase] at houtput
    cases houtput
  | some r => exact ⟨r, rfl⟩

end Handler

namespace Dispatcher

theorem value_synthesizeAll_cons (c : Command) (rest : List Command) :
    (synthesizeAll (c :: rest)).value =
      (Handler.ofCommand c).value.bind fun h =>
        (synthesizeAll rest).value.map (h :: ·) := by
  rw [synthesizeAll, Logged.value_bind]
  cases (Handler.ofCommand c).value with
  | error f => rfl
  | ok h => simp [Except.bind]

/-- The handlers of some commands are there exactly when each command keeps the contract. -/
theorem synthesizeAll_eq_ok_iff (cs : List Command) (hs : List Handler) :
    (synthesizeAll cs).value = .ok hs ↔
      (∀ c ∈ cs, Handler.fault? c.signature = none) ∧ hs = cs.map Handler.ofSound := by
  induction cs generalizing hs with
  | nil => simp [synthesizeAll, eq_comm]
  | cons c rest ih =>
    rw [value_synthesizeAll_cons]
    cases hc : (Handler.ofCommand c).value with
    | error f =>
      have hne : Handler.fault? c.signature ≠ none := by
        intro hnone
        have := (Handler.ofCommand_eq_ok_iff c (Handler.ofSound c)).2 ⟨hnone, rfl⟩
        rw [hc] at this
        cases this
      constructor
      · intro h
        cases h
      · intro h
        exact absurd (h.1 c (List.mem_cons_self ..)) hne
    | ok h =>
      obtain ⟨hnone, rfl⟩ := (Handler.ofCommand_eq_ok_iff c h).1 hc
      cases hr : (synthesizeAll rest).value with
      | error f =>
        have hbad : ¬ ∀ c' ∈ rest, Handler.fault? c'.signature = none := by
          intro hall
          have := (ih (rest.map Handler.ofSound)).2 ⟨hall, rfl⟩
          rw [hr] at this
          cases this
        constructor
        · intro h
          cases h
        · intro h
          exact absurd (fun c' hc' => h.1 c' (List.mem_cons_of_mem _ hc')) hbad
      | ok found =>
        obtain ⟨hall, rfl⟩ := (ih found).1 hr
        simp only [Except.bind, Except.map, Except.ok.injEq, List.map_cons,
          List.forall_mem_cons]
        exact ⟨fun h => ⟨⟨hnone, hall⟩, h.symm⟩, fun h => h.2.symm⟩

/-- The dispatcher of a declaration whose commands are sound. -/
def ofSound (d : Declaration) (token : TokenSource) : Dispatcher where
  namespace_ := d.namespace_
  name := d.unitName
  sourceName := d.name
  sourceType := d.selfType
  token := token
  handlers := d.commands.map Handler.ofSound
  table := DispatchTable.ofHandlers (d.commands.map Handler.ofSound)
  origin := d.origin

theorem value_assemble (d : Declaration) (hs : List Handler) (t : DispatchTable) :
    (assemble d hs t).value =
      (TokenSource.ofDeclaration d).map fun token =>
        { namespace_ := d.namespace_, name := d.unitName, sourceName := d.name,
          sourceType := d.selfType, token, handlers := hs, table := t, origin := d.origin } := by
  unfold assemble
  cases TokenSource.ofDeclaration d <;> rfl

theorem value_ofDeclaration (d : Declaration) :
    (ofDeclaration d).value =
      (synthesizeAll d.commands).value.bind fun hs =>
        (assemble d hs (DispatchTable.ofHandlers hs)).value := by
  rw [ofDeclaration, Logged.value_bind]
  cases (synthesizeAll d.commands).value <;> rfl

/-- A declaration is accepted exactly when its commands are sound and it has a token source. -/
theorem ofDeclaration_eq_ok_iff (d : Declaration) (u : Dispatcher) :
    (ofDeclaration d).value = .ok u ↔
      (∀ c ∈ d.commands, Handler.fault? c.signature = none) ∧
        ∃ token, TokenSource.ofDeclaration d = .ok token ∧ u = ofSound d token := by
  rw [value_ofDeclaration]
  constructor
  · intro h
    cases hs : (synthesizeAll d.commands).value with
    | error f => rw [hs] at h; cases h
    | ok found =>
      obtain ⟨hall, rfl⟩ := (synthesizeAll_eq_ok_iff d.commands found).1 hs
      rw [hs] at h
      simp only [Except.bind, value_assemble] at h
      cases ht : TokenSource.ofDeclaration d with
      | error f => rw [ht] at h; cases h
      | ok token =>
        rw [ht] at h
        refine ⟨hall, token, rfl, ?_⟩
        cases h
        rfl
  · rintro ⟨hall, token, ht, rfl⟩
    rw [(synthesizeAll_eq_ok_iff d.commands _).2 ⟨hall, rfl⟩]
    simp only [Except.bind, value_assemble, ht]
    rfl

end Dispatcher

end CommandBot
