import CommandBot.Proofs.ArgumentPaths
import CommandBot.Proofs.BlockPlaces
import CommandBot.Proofs.FaultNames

/-
  Where faults point. Each stage takes the place of a fault from a part of the block: the type, the
  type parameters, a signature, a parameter, or the tokens of the bot's attribute. So whatever fault
  a block of a text comes to, up to its emission, points to a stretch of the block that is not empty
  (`faults_point_into_block`).
-/

namespace CommandBot

open TokenTree

variable {r : Span}

theorem Span.Within.headSpan {t : TokenTree} (h : t.span.Within r) : t.headSpan.Within r := by
  cases t with
  | group d content s => exact Within.first h
  | word w => exact h
  | mark c spacing s => exact h
  | literal text s => exact h

/-! ## Resolution -/

namespace Declaration

theorem within_of_nameOf {t : WrittenType} (ht : t.LiesIn r) {f : Fault} (h : nameOf t = .error f) :
    f.span.Within r := by
  unfold nameOf at h
  split at h
  · rename_i s hs
    split at h
    · cases h
    · rename_i hsome
      cases h
      exact within_spanOf (fun hnone => hsome (List.isEmpty_iff.mpr hnone))
        (WrittenType.standIn_arguments ht.standIn hs)
  · cases h
    exact ht.span

theorem within_name {t : WrittenType} (ht : t.LiesIn r) {name : Word} (h : nameOf t = .ok name) :
    name.span.Within r := by
  obtain ⟨before, htrees⟩ := exists_trees_of_nameOf h
  refine ht.standIn (.word name) ?_
  rw [htrees]
  exact List.mem_append_right _ (List.mem_singleton_self _)

theorem within_of_ofBlock {b : ImplBlock} (hb : b.LiesIn r) {n : String} {o : Option String}
    {f : Fault} (h : (ofBlock b n o).value = .error f) : f.span.Within r := by
  unfold ofBlock at h
  split at h
  · rename_i g hname
    cases h
    exact within_of_nameOf hb.selfType hname
  · split at h
    · cases h
    · rename_i hsome
      cases h
      exact hb.generics fun hnone => hsome (List.isEmpty_iff.mpr hnone)

theorem attributes_of_ofBlock {b : ImplBlock} {n : String} {o : Option String} {d : Declaration}
    (h : (ofBlock b n o).value = .ok d) : d.attributes = b.attributes := by
  unfold ofBlock at h
  split at h
  · cases h
  · split at h
    · cases h
      rfl
    · cases h

end Declaration

/-! ## Commands -/

namespace Handler

variable {s : Signature} {fault : CommandFault} {place : Span}

theorem within_of_qualificationFault? (hs : s.LiesIn r)
    (h : qualificationFault? s = some (fault, place)) : place.Within r := by
  have hsome : ∀ {ts : List TokenTree}, (!ts.isEmpty) = true → ts ≠ [] := by
    rintro ts hts rfl
    cases hts
  unfold qualificationFault? at h
  split at h
  · cases h
    exact hs.name
  split at h
  · rename_i hasync
    cases h
    exact within_spanOf (hsome hasync) hs.asyncness
  split at h
  · rename_i hgenerics
    cases h
    exact hs.generics (hsome hgenerics)
  split at h
  · rename_i hunsafety
    cases h
    exact within_spanOf (hsome hunsafety) hs.unsafety
  split at h
  · rename_i habi
    cases h
    exact within_spanOf (hsome habi) hs.abi
  split at h
  · rename_i hvariadic
    cases h
    exact within_spanOf (hsome hvariadic) hs.variadic
  · cases h

theorem within_of_outputFault? (hs : s.LiesIn r) (h : outputFault? s = some (fault, place)) :
    place.Within r := by
  unfold outputFault? at h
  split at h
  · cases h
    exact hs.inputsSpan.last
  · rename_i arrow type houtput
    obtain ⟨-, h⟩ := Option.ite_none_right_eq_some.mp h
    cases h
    exact (hs.output _ houtput).span

theorem append_splitReceiver (ps : List Parameter) :
    (splitReceiver ps).1.toList ++ (splitReceiver ps).2 = ps := by
  cases ps with
  | nil => rfl
  | cons p ps =>
    rw [splitReceiver]
    split <;> rfl

/-- A fault about a parameter points to one of the parameters. -/
theorem exists_of_parameterFault? (h : parameterFault? s = some (fault, place)) :
    ∃ p ∈ parameters s, p.span = place := by
  have hsplit := append_splitReceiver (parameters s)
  have hreceiver : ∀ p ∈ (splitReceiver (parameters s)).1, p ∈ parameters s := by
    intro p hp
    rw [← hsplit]
    exact List.mem_append_left _ (Option.mem_toList.mpr hp)
  have hothers : ∀ p ∈ (splitReceiver (parameters s)).2, p ∈ parameters s := by
    intro p hp
    rw [← hsplit]
    exact List.mem_append_right _ hp
  unfold parameterFault? at h
  dsimp only at h
  split at h
  · rename_i p hp
    cases h
    exact ⟨p, hreceiver p (Option.filter_eq_some_iff.mp hp).1, rfl⟩
  · split at h
    · cases h
    · rename_i p hp
      split at h
      · cases h
      · cases h
        exact ⟨p, hothers p (by simp [hp]), rfl⟩
    · rename_i q p rest hp
      cases h
      exact ⟨p, hothers p (by simp [hp]), rfl⟩

theorem within_of_ofCommand {c : Command} (hc : c.signature.LiesIn r) {f : Fault}
    (h : (ofCommand c).value = .error f) : f.span.Within r := by
  rw [value_ofCommand] at h
  split at h
  · rename_i fault place hfault
    cases h
    rcases Option.or_eq_some_iff.mp hfault with h | ⟨-, h⟩
    · exact within_of_qualificationFault? hc h
    rcases Option.or_eq_some_iff.mp h with h | ⟨-, h⟩
    · exact within_of_outputFault? hc h
    · obtain ⟨p, hp, rfl⟩ := exists_of_parameterFault? h
      obtain ⟨q, hq, rfl⟩ := List.mem_map.mp hp
      exact hc.inputs q hq
  · cases h

end Handler

/-! ## Configuration -/

namespace TokenSource

variable {close : Span} {ts : List TokenTree} {α β : Type} {P : α → Prop} {Q : β → Prop}

/-- An error points into a stretch; a result is as `P` says. -/
def PointsInto (r : Span) (P : α → Prop) : Except ArgumentError α → Prop
  | .ok a => P a
  | .error e => e.2.Within r

theorem PointsInto.bind {x : Except ArgumentError α} {f : α → Except ArgumentError β}
    (hx : PointsInto r P x) (hf : ∀ a, P a → PointsInto r Q (f a)) : PointsInto r Q (x >>= f) := by
  cases x with
  | ok a => exact hf a hx
  | error e => exact hx

theorem within_placeOf (hclose : close.Within r) (hts : StandIn r ts) :
    (placeOf close ts).Within r := by
  cases ts with
  | nil => exact hclose
  | cons t ts => exact (hts t List.mem_cons_self).headSpan

/-- Values that stand in a stretch. -/
def Given.LiesIn (r : Span) (g : Given) : Prop := ∀ v ∈ g.env, v.2.Within r

theorem pointsInto_readPathTail (hclose : close.Within r) {last : Word} (hlast : last.span.Within r)
    (hts : StandIn r ts) :
    PointsInto r (fun q => q.1.span.Within r ∧ StandIn r q.2) (readPathTail close last ts) := by
  fun_induction readPathTail close last ts with
  | case1 last _ _ _ w rest ih =>
    obtain ⟨hw, hrest⟩ := standIn_cons.mp (standIn_cons.mp (standIn_cons.mp hts).2).2
    exact ih hw hrest
  | case2 last _ _ _ rest hnot =>
    exact within_placeOf hclose (standIn_cons.mp (standIn_cons.mp hts).2).2
  | case3 => exact ⟨hlast, hts⟩

/-- The words of an argument's path stand in a stretch. -/
def ArgumentPath.LiesIn (r : Span) (p : ArgumentPath) : Prop :=
  p.first.span.Within r ∧ p.last.span.Within r

theorem pointsInto_readPathFrom (hclose : close.Within r) (isRooted : Bool) (hts : StandIn r ts) :
    PointsInto r (fun q => q.1.LiesIn r ∧ StandIn r q.2) (readPathFrom close isRooted ts) := by
  unfold readPathFrom
  split
  · rename_i w rest
    obtain ⟨hw, hrest⟩ := standIn_cons.mp hts
    exact (pointsInto_readPathTail hclose hw hrest).bind fun q hq => ⟨⟨hw, hq.1⟩, hq.2⟩
  · exact hclose
  · exact within_placeOf hclose hts

theorem pointsInto_readPath (hclose : close.Within r) (hts : StandIn r ts) :
    PointsInto r (fun q => q.1.LiesIn r ∧ StandIn r q.2) (readPath close ts) := by
  unfold readPath
  split
  · exact pointsInto_readPathFrom hclose true (standIn_cons.mp (standIn_cons.mp hts).2).2
  · exact pointsInto_readPathFrom hclose false hts

theorem pointsInto_readValue (hclose : close.Within r) (hts : StandIn r ts) :
    PointsInto r (fun q => q.1.2.Within r ∧ StandIn r q.2) (readValue close ts) := by
  unfold readValue
  split
  · have hrest := (standIn_cons.mp hts).2
    split
    · obtain ⟨hs, hrest⟩ := standIn_cons.mp hrest
      split
      · exact ⟨hs, hrest⟩
      · exact hs
    · exact within_placeOf hclose hrest
  · exact within_placeOf hclose hts

theorem pointsInto_readArgument (hclose : close.Within r) {g : Given} (hg : g.LiesIn r)
    (hts : StandIn r ts) :
    PointsInto r (fun q => q.1.LiesIn r ∧ StandIn r q.2) (readArgument close g ts) := by
  refine (pointsInto_readPath hclose hts).bind fun q hq => ?_
  dsimp only
  split
  · exact (pointsInto_readValue hclose hq.2).bind fun v hv => ⟨hg, hv.2⟩
  split
  · refine (pointsInto_readValue hclose hq.2).bind fun v hv => ⟨?_, hv.2⟩
    rintro value ⟨⟩
    exact hv.1
  · exact hq.1.1.join hq.1.2

theorem pointsInto_readArguments (hclose : close.Within r) (n : Nat) {g : Given} (hg : g.LiesIn r)
    (hts : StandIn r ts) : PointsInto r (Given.LiesIn r) (readArguments close n g ts) := by
  fun_induction readArguments close n g ts with
  | case1 => exact hg
  | case2 => exact hg
  | case3 n g ts hne ih =>
    refine (pointsInto_readArgument hclose hg hts).bind fun q hq => ?_
    dsimp only
    split
    · exact hq.1
    · rename_i hrest
      rw [hrest] at hq
      exact ih _ _ hq.1 (standIn_cons.mp hq.2).2
    · rename_i hrest
      rw [hrest] at hq
      exact (standIn_cons.mp hq.2).1.headSpan

/-- What an attribute gives stands where it does, and so does what is wrong with it. -/
theorem cases_of_given {a : Attribute} (ha : a.LiesIn r) (bot : String) :
    (∃ f, given bot a = .error f ∧ f.span.Within r) ∨ ∃ g, given bot a = .ok g ∧ g.LiesIn r := by
  have hnone : Given.LiesIn r {} := fun v hv => nomatch hv
  have harguments := ha.arguments
  unfold given
  split
  · exact .inr ⟨_, rfl, hnone⟩
  · rename_i d content s heq
    rw [heq] at harguments
    have hread := pointsInto_readArguments harguments.1.last content.length hnone harguments.2
    split
    · rename_i g hg
      rw [hg] at hread
      exact .inr ⟨g, rfl, hread⟩
    · rename_i fault place herror
      rw [herror] at hread
      exact .inl ⟨_, rfl, hread⟩
  · rename_i sign value heq
    rw [heq] at harguments
    obtain ⟨hsome, hsign, hvalue⟩ := harguments
    refine .inl ⟨_, rfl, within_spanOf ?_ ?_⟩
    · simp [hsome]
    · exact standIn_append.mpr ⟨standIn_append.mpr ⟨ha.path, hsign⟩, hvalue⟩

theorem within_of_choose {bot : String} {a : Attribute} (ha : a.LiesIn r) {g : Given}
    (hg : g.LiesIn r) {f : Fault} (h : choose bot a g = .error f) : f.span.Within r := by
  unfold choose at h
  split at h
  · cases h
  · cases h
  · rename_i place _ henv
    cases h
    exact hg _ henv
  · cases h
    exact ha.span

theorem within_of_ofDeclaration {d : Declaration} (hname : d.name.span.Within r)
    (hattributes : ∀ a ∈ d.attributes, a.LiesIn r) {f : Fault} (h : ofDeclaration d = .error f) :
    f.span.Within r := by
  unfold ofDeclaration at h
  split at h
  · cases h
    exact hname
  · rename_i a hfirst
    have ha := hattributes a (List.mem_of_find?_eq_some hfirst)
    rcases cases_of_given ha d.name.text with ⟨g, hg, hwithin⟩ | ⟨g, hg, hgiven⟩
    · rw [hg] at h
      cases h
      exact hwithin
    · rw [hg] at h
      exact within_of_choose ha hgiven h

end TokenSource

/-! ## Blocks -/

namespace Declaration

/-- The fault of a bot points to its block, unless it is about the emission of its unit. -/
theorem within_of_failsWith {b : ImplBlock} (hb : b.LiesIn r) {n : String} {o : Option String}
    {d : Declaration} (hd : (ofBlock b n o).value = .ok d) {f : Fault} (hf : d.FailsWith f)
    (hstage : f.stage ≠ .emit) : f.span.Within r := by
  have hgenerated : (Dispatcher.ofDeclaration d).value = .error f → f.span.Within r := by
    intro h
    obtain ⟨-, hname, hcommands⟩ := parts_of_ofBlock hd
    rcases Dispatcher.exists_of_ofDeclaration h with ⟨c, hc, hrejected⟩ | htoken
    · rw [hcommands, commandsOf] at hc
      obtain ⟨m, hm, rfl⟩ := List.mem_map.mp hc
      exact Handler.within_of_ofCommand (hb.methods m (List.mem_filter.mp hm).1) hrejected
    · refine TokenSource.within_of_ofDeclaration (within_name hb.selfType hname) ?_ htoken
      rw [attributes_of_ofBlock hd]
      exact hb.attributes
  cases hf with
  | generated h => exact hgenerated h
  | processed h =>
    rcases Generation.exists_of_ofDeclaration h with h | ⟨unit, cause, rfl⟩
    · exact hgenerated h
    · exact absurd rfl hstage

/-- A fault that shows at the resolution of a bot, or later on before its unit is emitted, points into
a stretch and to no generated code. -/
def PointsInto (r : Span) : Except Fault Declaration → Prop
  | .error f => f.span.Within r ∧ f.span ≠ .generated
  | .ok d => ∀ f, d.FailsWith f → f.stage ≠ .emit → f.span.Within r ∧ f.span ≠ .generated

theorem pointsInto_ofBlock {b : ImplBlock} (hb : b.LiesIn r) (n : String) (o : Option String) :
    PointsInto r (ofBlock b n o).value := by
  cases h : (ofBlock b n o).value with
  | error f =>
    have hwithin := within_of_ofBlock hb h
    exact ⟨hwithin, hwithin.ne_generated⟩
  | ok d =>
    intro f hf hstage
    have hwithin := within_of_failsWith hb h hf hstage
    exact ⟨hwithin, hwithin.ne_generated⟩

open Namespace (extended)

/-- Faults point into the declaration. A block of a text, and each block of a file, stands in the
text, from the first token of its attributes to its last bracket; whatever fault it comes to, at its
resolution or later on for the bot that it declares, points to a stretch in it that is not empty. A
text that is one block is all that block's, and the results of a file are those of its blocks that
declare a bot. -/
theorem faults_point_into_block (s : String) :
    (∀ b, ImplBlock.parse? s = some b →
      b.StandsIn s.toList ∧ (∃ ts, TokenTree.read? s = some ts ∧ b.span = spanOf ts) ∧
        ∀ n o, PointsInto b.span (ofBlock b n o).value) ∧
    ∀ f, SourceFile.parse? s = some f →
      (∀ p ∈ Item.locatedAll f.items,
        p.2.StandsIn (SourceFile.textOf s) ∧
          ∀ n o, PointsInto p.2.span (ofBlock p.2 n o).value) ∧
      ∀ n o, (ofFile f n o).value =
        ((Item.locatedAll f.items).filter fun p => p.2.DeclaresBot).map
          fun p => (ofBlock p.2 (extended n p.1) o).value := by
  refine ⟨fun b hb => ?_, fun f hf => ⟨fun p hp => ?_, fun n o => ?_⟩⟩
  · obtain ⟨hstands, hall⟩ := ImplBlock.standsIn_of_parse? hb
    exact ⟨hstands, hall, pointsInto_ofBlock hstands.parts⟩
  · have hstands := SourceFile.standsIn_of_parse? hf p hp
    exact ⟨hstands, pointsInto_ofBlock hstands.parts⟩
  · have hnames := Item.names_ne_empty_of_all (SourceFile.isLegible_of_parse? hf)
    exact value_ofItems_located hnames n o

/-- A bot with a command that has no result. -/
def silentBot : String :=
  "#[bot(token = \"t\")]\nimpl Greeter \x7b\n  #[prefix_command] fn hello(&self) \x7b\x7d\n\x7d\n"

/-- The fault points to the bracket behind the parameters. -/
theorem faults_point_into_block_silent :
    let place : Span := .written ⟨3, 34⟩ ⟨3, 35⟩
    let f : Fault := .malformed "Greeter" (.command "hello" .noReply) place
    ∃ b d, ImplBlock.parse? silentBot = some b ∧ (ofBlock b "" none).value = .ok d ∧
      d.FailsWith f ∧ place.Within b.span ∧
      ∃ file, SourceFile.parse? silentBot = some file ∧
        (Item.locatedAll file.items).length = 1 ∧
        ∀ p ∈ Item.locatedAll file.items, PointsInto p.2.span (ofBlock p.2 "" none).value := by
  intro place f
  have hblock : (ImplBlock.parse? silentBot).any (fun b =>
      (ofBlock b "" none).value.toOption.any fun d =>
        d.commands.findSome? Dispatcher.rejection? == some f) = true := by
    decide +kernel
  have hfile : (SourceFile.parse? silentBot).any (fun file =>
      (Item.locatedAll file.items).length == 1) = true := by
    decide +kernel
  obtain ⟨b, hb, hany⟩ := (Option.any_eq_true _ _).mp hblock
  obtain ⟨d, hd, hfirst⟩ := (Option.any_eq_true _ _).mp hany
  obtain ⟨file, hf, hone⟩ := (Option.any_eq_true _ _).mp hfile
  have hvalue : (ofBlock b "" none).value = .ok d := eq_ok_of_toOption hd
  have hfails : d.FailsWith f :=
    .generated (Dispatcher.value_ofDeclaration_of_rejected (eq_of_beq hfirst))
  have hpoints := ((faults_point_into_block silentBot).1 b hb).2.2 "" none
  rw [hvalue] at hpoints
  refine ⟨b, d, hb, hvalue, hfails, (hpoints f hfails (by decide)).1, file, hf, eq_of_beq hone, ?_⟩
  exact fun p hp => (((faults_point_into_block silentBot).2 file hf).1 p hp).2 "" none

end Declaration

end CommandBot
