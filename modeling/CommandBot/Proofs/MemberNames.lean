import CommandBot.Proofs.CommandOrder
import CommandBot.Proofs.HandlerContract
import CommandBot.Proofs.ReadingUnit
import CommandBot.Proofs.RenderedUnit

/-
  The names in a dispatcher's code. Its own methods come from no command, and no command may be named
  as one of them (`reservedNames_eq`). The comparison is of names as they are written, but a raw mark
  is no part of an identifier: `ofDeclaration_names_apart` says that a command is mistaken for an own
  method exactly when it is written as that name behind the mark, and
  `exists_ofDeclaration_names_meet` is a bot with such a command.
-/

namespace CommandBot

/-! ## Identifiers -/

namespace Word

/-- The words are the same identifier; a raw mark is no part of it. -/
def SameIdentifier (v w : Word) : Prop := v.bare = w.bare

/-- An identifier has two spellings. -/
theorem sameIdentifier_made_iff {name : String} (h : ∀ s, name ≠ "r#" ++ s) (v : Word) :
    v.SameIdentifier (.made name) ↔ v.text = name ∨ v.text = "r#" ++ name := by
  have hname : (Word.made name).bare = name := Dispatcher.bare_of_plain h
  rw [SameIdentifier, hname]
  by_cases hraw : ∃ s, v.text = "r#" ++ s
  · obtain ⟨s, hs⟩ := hraw
    rw [Dispatcher.bare_of_raw hs, hs, String.append_right_inj]
    exact ⟨Or.inr, fun hor => hor.resolve_left fun heq => h s heq.symm⟩
  · have hplain : ∀ s, v.text ≠ "r#" ++ s := fun s hs => hraw ⟨s, hs⟩
    rw [Dispatcher.bare_of_plain hplain]
    exact ⟨Or.inl, fun hor => hor.resolve_right (hplain name)⟩

end Word

namespace Dispatcher

/-! ## The dispatcher's own methods -/

/-- The methods in the code of a dispatcher that it has without its commands. -/
def ownMethods (u : Dispatcher) : List Method :=
  ({ u with handlers := [] } : Dispatcher).block.methods ++ u.defaultBlock.methods

/-- The code has no other methods but those of the commands. -/
theorem perm_ownMethods (u : Dispatcher) :
    (u.block.methods ++ u.defaultBlock.methods).Perm
      (u.ownMethods ++ u.handlers.map Handler.method) := by
  rw [ownMethods, methods_block, methods_block, methods, methods, List.map_nil, List.append_nil]
  simp only [List.append_assoc]
  refine List.Perm.append_left _ ?_
  rw [← List.append_assoc [u.table.method]]
  exact List.perm_append_comm

/-- The names that no command may have are those of the dispatcher's own methods. -/
theorem names_ownMethods (u : Dispatcher) :
    u.ownMethods.map (fun m => m.signature.name) = Handler.reservedNames.map Word.made := by
  rw [ownMethods, methods_block]
  rfl

/-- No reserved name is written with a raw mark. -/
theorem not_raw_of_mem_reservedNames {name : String} (h : name ∈ Handler.reservedNames) (s : String) :
    name ≠ "r#" ++ s := by
  rintro rfl
  have hmarks : ∀ reserved ∈ Handler.reservedNames, reserved.toList.take 2 ≠ ['r', '#'] := by
    decide
  refine hmarks _ h ?_
  rw [String.toList_append]
  rfl

/-! ## Commands -/

theorem not_mem_reservedNames {d : Declaration} {u : Dispatcher}
    (hu : (ofDeclaration d).value = .ok u) :
    ∀ h ∈ u.handlers, h.name.text ∉ Handler.reservedNames := by
  obtain ⟨hsound, token, -, rfl⟩ := (ofDeclaration_eq_ok_iff d u).mp hu
  intro h hmem
  obtain ⟨c, hc, rfl⟩ := List.mem_map.mp hmem
  exact ((Handler.fault?_eq_none_iff c.signature).mp (hsound c hc)).name

/-- The code of a dispatcher holds its own methods and one for each command. A command is the same
identifier as one of them exactly when it is written as that name behind a raw mark, so that commands
without such a mark are none of them. -/
theorem ofDeclaration_names_apart {d : Declaration} {u : Dispatcher}
    (hu : (ofDeclaration d).value = .ok u) :
    (u.block.methods ++ u.defaultBlock.methods).Perm
        (u.ownMethods ++ u.handlers.map Handler.method) ∧
      (∀ h ∈ u.handlers, ∀ m ∈ u.ownMethods,
        h.name.SameIdentifier m.signature.name ↔ h.name.text = "r#" ++ m.signature.name.text) ∧
      ((∀ c ∈ d.commands, ∀ s, c.name.text ≠ "r#" ++ s) →
        ∀ h ∈ u.handlers, ∀ m ∈ u.ownMethods, ¬ h.name.SameIdentifier m.signature.name) := by
  have hiff : ∀ h ∈ u.handlers, ∀ m ∈ u.ownMethods,
      h.name.SameIdentifier m.signature.name ↔ h.name.text = "r#" ++ m.signature.name.text := by
    intro h hmem m hm
    obtain ⟨name, hname, hmade⟩ : ∃ name ∈ Handler.reservedNames, .made name = m.signature.name := by
      rw [← List.mem_map, ← names_ownMethods u]
      exact List.mem_map_of_mem hm
    have hfree : h.name.text ≠ name := fun heq => not_mem_reservedNames hu h hmem (heq ▸ hname)
    rw [← hmade, Word.sameIdentifier_made_iff (not_raw_of_mem_reservedNames hname)]
    exact ⟨fun hor => hor.resolve_left hfree, Or.inr⟩
  refine ⟨perm_ownMethods u, hiff, fun hplain h hmem m hm hsame => ?_⟩
  obtain ⟨-, token, -, rfl⟩ := (ofDeclaration_eq_ok_iff d u).mp hu
  obtain ⟨c, hc, rfl⟩ := List.mem_map.mp hmem
  exact hplain c hc _ ((hiff _ hmem m hm).mp hsame)

/-- A bot whose commands have these names. -/
def namedBot (names : List String) : Declaration :=
  loopBot
    [.make botMarker [.made "token", .mark '=' .alone .generated, .literal "\"abc\"" .generated]]
    (names.map (answering [.make commandMarker []] []))

/-- Two commands with names of their own, one of them only by its first letter. -/
theorem ofDeclaration_names_apart_hello :
    ∃ u, (ofDeclaration (namedBot ["hello", "Run"])).value = .ok u ∧ u.handlers.length = 2 ∧
      ∀ h ∈ u.handlers, ∀ m ∈ u.ownMethods, ¬ h.name.SameIdentifier m.signature.name := by
  have hu : (ofDeclaration (namedBot ["hello", "Run"])).value =
      .ok (ofSound (namedBot ["hello", "Run"]) (.literal "abc")) := rfl
  have hplain : ∀ c ∈ (namedBot ["hello", "Run"]).commands, c.name.text.toList.head? ≠ some 'r' := by
    decide
  refine ⟨_, hu, rfl, (ofDeclaration_names_apart hu).2.2 fun c hc s hs => hplain c hc ?_⟩
  rw [hs, String.toList_append]
  rfl

/-- A bot may have a command `r#run`, beside its dispatcher's own `run`. -/
theorem exists_ofDeclaration_names_meet :
    ∃ (d : Declaration) (u : Dispatcher), d.Written ∧ (ofDeclaration d).value = .ok u ∧
      ∃ h ∈ u.handlers, ∃ m ∈ u.ownMethods, h.name.SameIdentifier m.signature.name := by
  obtain ⟨d, u, hd, hu, hmeet⟩ := Declaration.exists_written
    ("#[bot(token = \"t\")] impl Greeter \x7b #[prefix_command] fn r#run(&self) -> String " ++
      "\x7b todo!() \x7d \x7d")
    (fun u => u.handlers.any fun h => u.ownMethods.any fun m =>
      h.name.bare == m.signature.name.bare)
    (by decide +kernel)
  simp only [List.any_eq_true, beq_iff_eq] at hmeet
  exact ⟨d, u, hd, hu, hmeet⟩

end Dispatcher

end CommandBot
