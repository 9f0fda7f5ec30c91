import CommandBot.Proofs.MemberNames
import CommandBot.Proofs.UnreachedArms

/-
  Which messages a command answers. The content that takes an arm is the arm's key
  (`position?_eq_some_iff_of_nodup`), which is `!` and the command's name as it is written. A raw mark is
  written, though it is no part of the identifier. `ofDeclaration_answers`: commands that are
  different identifiers answer one content each, which is `!` and the identifier exactly when the
  name has no raw mark; and two bots whose commands are the same identifiers route alike exactly
  when they spell them alike. `exists_ofDeclaration_unanswered`: so a bot may not answer to the
  identifier of a command.
-/

namespace CommandBot

namespace Word

/-- A word is its identifier when it has no raw mark. -/
theorem bare_eq_text_iff (w : Word) : w.bare = w.text ↔ ∀ s, w.text ≠ "r#" ++ s := by
  constructor
  · intro h s hs
    have hlength := congrArg String.length ((Dispatcher.bare_of_raw hs).symm.trans (h.trans hs))
    rw [String.length_append] at hlength
    have hmark : "r#".length = 2 := rfl
    omega
  · exact Dispatcher.bare_of_plain

/-- Words are the same identifiers one by one when they are alike without their raw marks. -/
theorem forall₂_sameIdentifier_iff (vs ws : List Word) :
    List.Forall₂ SameIdentifier vs ws ↔ vs.map bare = ws.map bare := by
  rw [← List.forall₂_eq_eq_eq, List.forall₂_map_left_iff, List.forall₂_map_right_iff]
  rfl

/-- Different identifiers are spelt differently. -/
theorem text_ne_of_not_sameIdentifier {v w : Word} (h : ¬ v.SameIdentifier w) : v.text ≠ w.text := by
  intro htext
  apply h
  unfold SameIdentifier bare
  rw [htext]

end Word

namespace DispatchTable

variable {t : DispatchTable}

/-- Where no two arms have the same key, the content that takes an arm is its key. -/
theorem position?_eq_some_iff_of_nodup (h : t.keys.Nodup) {i : Nat} {a : Arm}
    (ha : t.arms[i]? = some a) (content : String) :
    t.position? content = some i ↔ content = a.key := by
  rw [position?_eq_some_iff ha]
  constructor
  · exact fun hcontent => hcontent.1.symm
  · rintro rfl
    refine ⟨rfl, fun hbefore => ?_⟩
    obtain ⟨hi, rfl⟩ := List.getElem?_eq_some_iff.mp ha
    obtain ⟨j, hj, hkey⟩ := List.mem_take_iff_getElem.mp hbefore
    have hlength : t.keys.length = t.arms.length := List.length_map _
    have hkeys : t.keys[j] = t.keys[i] := hkey.trans (List.getElem_map Arm.key).symm
    have hplace := (List.Nodup.getElem_inj_iff h).mp hkeys
    omega

/-- Where no two arms have the same key, an arm is routed to from its key only. -/
theorem route_eq_some_iff (h : t.keys.Nodup) {i : Nat} {a : Arm} (ha : t.arms[i]? = some a)
    (content : String) : t.route content = some a ↔ content = a.key := by
  constructor
  · intro hroute
    have hkey := List.find?_some hroute
    exact (eq_of_beq hkey).symm
  · intro hkey
    rw [route_eq_bind, (position?_eq_some_iff_of_nodup h ha content).mpr hkey]
    exact ha

/-- Tables route alike when they have the same keys in the same order. -/
theorem position?_congr {t' : DispatchTable} (h : t.keys = t'.keys) (content : String) :
    t.position? content = t'.position? content := by
  have hkeys : ∀ s : DispatchTable, s.position? content = s.keys.findIdx? (· == content) := by
    intro s
    rw [position?, keys, List.findIdx?_map]
    rfl
  rw [hkeys, hkeys, h]

end DispatchTable

namespace Dispatcher

/-- No two commands of a bot are the same identifier. -/
def NamesApart (d : Declaration) : Prop :=
  (d.commands.map Command.name).Pairwise fun v w => ¬ v.SameIdentifier w

theorem namesApart_iff (d : Declaration) :
    NamesApart d ↔ ((d.commands.map Command.name).map Word.bare).Nodup :=
  (List.pairwise_map (f := Word.bare) (R := (· ≠ ·))).symm

section Accepted

variable {d d' : Declaration} {u u' : Dispatcher}

theorem names_handlers (hu : (ofDeclaration d).value = .ok u) :
    u.handlers.map Handler.name = d.commands.map Command.name := by
  obtain ⟨-, token, -, rfl⟩ := (ofDeclaration_eq_ok_iff d u).mp hu
  exact List.map_map

theorem keys_table (hu : (ofDeclaration d).value = .ok u) :
    u.table.keys = d.commands.map fun c => "!" ++ c.name.text := by
  obtain ⟨-, token, -, rfl⟩ := (ofDeclaration_eq_ok_iff d u).mp hu
  have hkeys : (ofSound d token).table.keys = (d.commands.map Handler.ofSound).map Handler.key :=
    DispatchTable.keys_ofHandlers _
  rw [hkeys, List.map_map]
  rfl

/-- Commands that are different identifiers have different keys. -/
theorem nodup_keys (hu : (ofDeclaration d).value = .ok u) (h : NamesApart d) :
    u.table.keys.Nodup := by
  rw [keys_table hu]
  unfold NamesApart at h
  rw [List.pairwise_map] at h
  refine List.pairwise_map.mpr (h.imp fun hne heq => ?_)
  rw [String.append_right_inj] at heq
  exact Word.text_ne_of_not_sameIdentifier hne heq

/-- The arm of a command, which no other content takes but its key. -/
theorem exists_arm (hu : (ofDeclaration d).value = .ok u) (h : NamesApart d) {i : Nat} {c : Command}
    (hc : d.commands[i]? = some c) :
    ∃ a, u.table.arms[i]? = some a ∧ a.handler = c.name ∧
      (∀ content, u.table.route content = some a ↔ content = "!" ++ c.name.text) ∧
      ∀ content, u.table.position? content = some i ↔ content = "!" ++ c.name.text := by
  obtain ⟨-, token, -, rfl⟩ := (ofDeclaration_eq_ok_iff d u).mp hu
  have hsignature : (d.commands.map fun c => (c.signature, c.docs))[i]? =
      some (c.signature, c.docs) := by
    rw [List.getElem?_map, hc]
    rfl
  obtain ⟨handler, -, harm, hname, hkey, -, -⟩ :=
    (serves_ofSound d token).each i c.signature c.docs hsignature
  have hkeys := nodup_keys hu h
  refine ⟨_, harm, hname, fun content => ?_, fun content => ?_⟩
  · rw [DispatchTable.route_eq_some_iff hkeys harm, hkey]
    rfl
  · rw [DispatchTable.position?_eq_some_iff_of_nodup hkeys harm, hkey]
    rfl

/-- Being different identifiers does not depend on the spelling. -/
theorem NamesApart.of_same (h : NamesApart d)
    (hsame : List.Forall₂ Word.SameIdentifier (d.commands.map Command.name)
      (d'.commands.map Command.name)) : NamesApart d' := by
  rw [namesApart_iff] at h ⊢
  rwa [← (Word.forall₂_sameIdentifier_iff _ _).mp hsame]

/-- Commands at the same places are routed to from the same contents only when they are spelt
alike. -/
theorem texts_eq_of_position?_eq (hu : (ofDeclaration d).value = .ok u)
    (hu' : (ofDeclaration d').value = .ok u') (h : NamesApart d)
    (hsame : List.Forall₂ Word.SameIdentifier (d.commands.map Command.name)
      (d'.commands.map Command.name))
    (hroutes : ∀ content, u.table.position? content = u'.table.position? content) :
    d.commands.map (fun c => c.name.text) = d'.commands.map fun c => c.name.text := by
  have hlength := hsame.length_eq
  rw [List.length_map, List.length_map] at hlength
  refine List.ext_getElem (by rw [List.length_map, List.length_map, hlength]) fun i hi hi' => ?_
  rw [List.length_map] at hi hi'
  obtain ⟨-, -, -, -, hcontent⟩ := exists_arm hu h (List.getElem?_eq_getElem hi)
  obtain ⟨-, -, -, -, hcontent'⟩ := exists_arm hu' (h.of_same hsame) (List.getElem?_eq_getElem hi')
  have hkey := (hcontent' _).mp ((hroutes _).symm.trans ((hcontent _).mpr rfl))
  rw [String.append_right_inj] at hkey
  rw [List.getElem_map, List.getElem_map, hkey]

/-- Of commands that are different identifiers each answers one content, `!` and its name as it is
written. This is `!` and the identifier exactly when the name has no raw mark, and so commands that
are the same identifiers are routed to from the same contents exactly when they are spelt alike. -/
theorem ofDeclaration_answers (hu : (ofDeclaration d).value = .ok u) (hapart : NamesApart d) :
    (∀ i c, d.commands[i]? = some c →
      (∃ a, u.table.arms[i]? = some a ∧ a.handler = c.name ∧
        ∀ content, u.table.route content = some a ↔ content = "!" ++ c.name.text) ∧
      (∀ content, u.table.position? content = some i ↔ content = "!" ++ c.name.text) ∧
      ((∀ content, u.table.position? content = some i ↔ content = "!" ++ c.name.bare) ↔
        ∀ s, c.name.text ≠ "r#" ++ s)) ∧
    ∀ d' u', (ofDeclaration d').value = .ok u' →
      List.Forall₂ Word.SameIdentifier (d.commands.map Command.name)
        (d'.commands.map Command.name) →
      ((∀ content, u.table.position? content = u'.table.position? content) ↔
        d.commands.map (fun c => c.name.text) = d'.commands.map fun c => c.name.text) := by
  constructor
  · intro i c hc
    obtain ⟨a, harm, hhandler, hroute, hposition⟩ := exists_arm hu hapart hc
    refine ⟨⟨a, harm, hhandler, hroute⟩, hposition, ?_⟩
    rw [← Word.bare_eq_text_iff]
    constructor
    · intro hbare
      have hkey := (hposition _).mp ((hbare _).mpr rfl)
      rwa [String.append_right_inj] at hkey
    · intro hbare content
      rw [hposition, hbare]
  · intro d' u' hu' hsame
    constructor
    · exact texts_eq_of_position?_eq hu hu' hapart hsame
    · intro htexts content
      apply DispatchTable.position?_congr
      rw [keys_table hu, keys_table hu']
      have hkeys := congrArg (List.map ("!" ++ ·)) htexts
      rwa [List.map_map, List.map_map] at hkeys

end Accepted

/-- Three commands, one of them raw; with the first one raw as well they are routed to from other
contents. -/
theorem ofDeclaration_answers_hello :
    ∃ u u', (ofDeclaration (namedBot ["hello", "Run", "r#match"])).value = .ok u ∧
      (ofDeclaration (namedBot ["r#hello", "Run", "r#match"])).value = .ok u' ∧
      u.table.position? "!hello" = some 0 ∧ u.table.position? "!r#match" = some 2 ∧
      ¬ (∀ content, u.table.position? content = some 2 ↔ content = "!match") ∧
      ¬ ∀ content, u.table.position? content = u'.table.position? content := by
  have hu : (ofDeclaration (namedBot ["hello", "Run", "r#match"])).value =
      .ok (ofSound (namedBot ["hello", "Run", "r#match"]) (.literal "abc")) := rfl
  have hu' : (ofDeclaration (namedBot ["r#hello", "Run", "r#match"])).value =
      .ok (ofSound (namedBot ["r#hello", "Run", "r#match"]) (.literal "abc")) := rfl
  have hapart : NamesApart (namedBot ["hello", "Run", "r#match"]) :=
    (namesApart_iff _).mpr (by decide)
  obtain ⟨hcommands, hspellings⟩ := ofDeclaration_answers hu hapart
  refine ⟨_, _, hu, hu', ((hcommands 0 _ rfl).2.1 _).mpr rfl, ((hcommands 2 _ rfl).2.1 _).mpr rfl,
    fun hbare => (hcommands 2 _ rfl).2.2.mp hbare "match" rfl, fun hroutes => ?_⟩
  have htexts := (hspellings _ _ hu' (.cons rfl (.cons rfl (.cons rfl .nil)))).mp hroutes
  exact absurd htexts (by decide)

/-- The text of a bot with one command of this name. -/
def textOfNamed (name : String) : String :=
  "#[bot(token = \"t\")] impl Greeter \x7b #[prefix_command] fn " ++ name ++
    "(&self) -> String \x7b todo!() \x7d \x7d"

/-- A bot with the command `r#match` does not answer to its identifier, and whether a bot answers to
`hello` depends on how the name of its command is spelt. -/
theorem exists_ofDeclaration_unanswered :
    (∃ (d : Declaration) (u : Dispatcher), d.Written ∧ (ofDeclaration d).value = .ok u ∧
      NamesApart d ∧ ∃ c ∈ d.commands, c.name.bare = "match" ∧
        u.table.position? ("!" ++ c.name.bare) = none) ∧
    ∃ (d d' : Declaration) (u u' : Dispatcher), d.Written ∧ d'.Written ∧
      (ofDeclaration d).value = .ok u ∧ (ofDeclaration d').value = .ok u' ∧
      List.Forall₂ Word.SameIdentifier (d.commands.map Command.name) (d'.commands.map Command.name) ∧
      u.table.position? "!hello" ≠ u'.table.position? "!hello" := by
  constructor
  · obtain ⟨d, u, hd, hu, htest⟩ := Declaration.exists_written (textOfNamed "r#match")
      (fun u => (u.handlers.map Handler.name).map Word.bare == ["match"] &&
        u.table.position? "!match" == none)
      (by decide +kernel)
    rw [Bool.and_eq_true, beq_iff_eq, beq_iff_eq, names_handlers hu] at htest
    obtain ⟨hnames, hnone⟩ := htest
    have hapart : NamesApart d := by
      rw [namesApart_iff, hnames]
      exact List.nodup_singleton "match"
    obtain ⟨c, hc, hname⟩ : ∃ c ∈ d.commands, c.name.bare = "match" := by
      have hmem : "match" ∈ (d.commands.map Command.name).map Word.bare := by
        rw [hnames]
        exact List.mem_singleton_self _
      rw [List.map_map, List.mem_map] at hmem
      exact hmem
    exact ⟨d, u, hd, hu, hapart, c, hc, hname, by rw [hname]; exact hnone⟩
  · obtain ⟨d, u, hd, hu, htest⟩ := Declaration.exists_written (textOfNamed "hello")
      (fun u => (u.handlers.map Handler.name).map Word.bare == ["hello"] &&
        u.table.position? "!hello" == some 0)
      (by decide +kernel)
    obtain ⟨d', u', hd', hu', htest'⟩ := Declaration.exists_written (textOfNamed "r#hello")
      (fun u => (u.handlers.map Handler.name).map Word.bare == ["hello"] &&
        u.table.position? "!hello" == none)
      (by decide +kernel)
    rw [Bool.and_eq_true, beq_iff_eq, beq_iff_eq, names_handlers hu] at htest
    rw [Bool.and_eq_true, beq_iff_eq, beq_iff_eq, names_handlers hu'] at htest'
    refine ⟨d, d', u, u', hd, hd', hu, hu', ?_, ?_⟩
    · exact (Word.forall₂_sameIdentifier_iff _ _).mpr (htest.1.trans htest'.1.symm)
    · rw [htest.2, htest'.2]
      exact Option.some_ne_none 0

end Dispatcher

end CommandBot
