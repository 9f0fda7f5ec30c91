import CommandBot.Proofs.AlikeNetworks
import CommandBot.Proofs.EventDelivery

/-
  Panics of listeners. A network whose listeners panic is compared with the same one whose listeners
  stop at that point without a panic (`Behavior.calm`). Which calls were made, and which of them
  panic, is what listeners note themselves (`Behavior.watched`). `performAll_calm`: all ends the
  same, the same calls are made in the same order, and what is put out differs by one report for
  each call that panicked (`Reported`).
-/

namespace CommandBot

variable {ι σ : Type}

/-! ## Calls and reports -/

/-- A call of a listener, as the listener notes it. -/
structure CallNote (ι : Type) where
  listener : ι
  message : Message
  panics : Bool

/-- The same call without a panic. -/
def CallNote.hushed (n : CallNote ι) : CallNote ι := { n with panics := false }

/-- The report on a call that panicked, from within a session. -/
def CallNote.report (n : CallNote ι) (s : Session ι) : Output :=
  .within s.scope (.event (Session.panickedEvent n.message))

namespace Behavior

/-- The same listeners, which return where they would panic. -/
def calm (b : Behavior ι σ) : Behavior ι σ := fun l m s => { b l m s with panics := false }

/-- The same listeners, which note each call. -/
def watched (b : Behavior ι σ) : Behavior ι (σ × List (CallNote ι)) := fun l m s =>
  let r := b l m s.1
  { memory := (r.memory, s.2 ++ [⟨l, m, r.panics⟩]), deeds := r.deeds, panics := r.panics }

end Behavior

/-- A network whose listeners have noted no call yet. -/
def Network.watching (w : Network ι σ) : Network ι (σ × List (CallNote ι)) :=
  ⟨w.gateways, w.sessions, w.installed, (w.memory, [])⟩

/-- The second output is the first one with one report put in for each call that panicked, in the
order of the calls. -/
inductive Reported : List (CallNote ι) → List Output → List Output → Prop
  | done : Reported [] [] []
  | output {ns : List (CallNote ι)} {quiet loud : List Output} (o : Output)
    (h : Reported ns quiet loud) : Reported ns (o :: quiet) (o :: loud)
  | returned {n : CallNote ι} {ns : List (CallNote ι)} {quiet loud : List Output}
    (hn : n.panics = false) (h : Reported ns quiet loud) : Reported (n :: ns) quiet loud
  | panicked {n : CallNote ι} {ns : List (CallNote ι)} {quiet loud : List Output}
    (hn : n.panics = true) (s : Session ι) (h : Reported ns quiet loud) :
    Reported (n :: ns) quiet (n.report s :: loud)

namespace Reported

variable {ns ns' : List (CallNote ι)} {quiet quiet' loud loud' : List Output}

/-- Where no call was made nothing is reported. -/
theorem refl (outputs : List Output) : Reported ([] : List (CallNote ι)) outputs outputs := by
  induction outputs with
  | nil => exact .done
  | cons o os ih => exact .output o ih

theorem append (h : Reported ns quiet loud) (h' : Reported ns' quiet' loud') :
    Reported (ns ++ ns') (quiet ++ quiet') (loud ++ loud') := by
  induction h with
  | done => exact h'
  | output o _ ih => exact .output o ih
  | returned hn _ ih => exact .returned hn ih
  | panicked hn s _ ih => exact .panicked hn s ih

/-- One call in a session, with what it puts out before it may panic. -/
theorem call (n : CallNote ι) (s : Session ι) (outputs : List Output) :
    Reported [n] (outputs.map (.within s.scope))
      ((outputs ++ if n.panics then [Output.event (Session.panickedEvent n.message)] else []).map
        (.within s.scope)) := by
  have hreport : Reported [n] []
      ((if n.panics then [Output.event (Session.panickedEvent n.message)] else []).map
        (.within s.scope)) := by
    cases hn : n.panics with
    | false => exact .returned hn .done
    | true => exact .panicked hn s .done
  have happended := (refl (outputs.map (.within s.scope))).append hreport
  rwa [List.nil_append, List.append_nil, ← List.map_append] at happended

end Reported

/-! ## Steps -/

/-- Deeds leave what is remembered alone. -/
theorem Reaction.memory_effects (r : Reaction ι σ) (w : Network ι σ) :
    (r.effects w).value.2.memory = r.memory := by
  have hdeeds : ∀ (ds : List (Deed ι)) (v : Network ι σ),
      (ds.forM Deed.perform v).value.2.memory = v.memory := by
    intro ds
    induction ds with
    | nil => exact fun v => rfl
    | cons d ds ih => exact fun v => (ih (d.after v)).trans (d.memory_after v)
  exact hdeeds r.deeds _

theorem ClientBuilder.memory_login (c : ClientBuilder ι) (w : Network ι σ) :
    (c.login w).value.2.memory = w.memory := by
  have hlogin := Course.loggedIn c ⟨w, []⟩
  have hnetwork : (c.login w).value.2 = (Course.login ⟨w, []⟩ c).network := rfl
  rw [hnetwork]
  generalize Course.login ⟨w, []⟩ c = after at hlogin ⊢
  obtain _ | _ := hlogin <;> rfl

namespace Network

/-- Without a call a step of a task changes nothing that is remembered. -/
theorem memory_stepped (b : Behavior ι σ) (p : Preference) {i : SessionId} {w : Network ι σ}
    {s : Session ι} (hs : w.sessions[i]? = some s)
    (hp : ∀ m l left, s.phase ≠ .handling m (l :: left)) :
    (stepped b p i w).memory = w.memory := by
  rcases hphase : s.phase with _ | ⟨m, _ | ⟨l, left⟩⟩ | _
  · rw [stepped_waiting b p hs hphase]
    split
    · rfl
    · split
      · split <;> rfl
      · rfl
  · rw [stepped_handling_nil b p hs hphase]
    rfl
  · exact absurd hphase (hp m l left)
  · rw [stepped_ended b p hs hphase]

/-- A step of a task does not depend on listeners and leaves alone what they remember, or it is a
call. -/
theorem advance_cases (p : Preference) (i : SessionId) (w : Network ι σ) :
    (∃ m, m.value.2.memory = w.memory ∧ ∀ b : Behavior ι σ, advance b p i w = m) ∨
      ∃ (s : Session ι) (m : Message) (l : ι) (left : List ι), ∀ b : Behavior ι σ,
        advance b p i w = Logged.within s.scope (Session.callNext b i m l left w) := by
  rcases hs : w.sessions[i]? with _ | s
  · exact .inl ⟨_, rfl, fun b => advance_of_no_session b p hs⟩
  · by_cases hcalling : ∃ m l left, s.phase = .handling m (l :: left)
    · obtain ⟨m, l, left, hp⟩ := hcalling
      exact .inr ⟨s, m, l, left, fun b => by rw [advance_of_session b p hs, Session.step, hp]⟩
    · have hp : ∀ m l left, s.phase ≠ .handling m (l :: left) := fun m l left h =>
        hcalling ⟨m, l, left, h⟩
      refine .inl ⟨advance .idle p i w, memory_stepped .idle p hs hp, fun b => ?_⟩
      rw [advance_of_session b p hs, advance_of_session .idle p hs, Session.step, Session.step]
      rcases hphase : s.phase with _ | ⟨m, _ | ⟨l, left⟩⟩ | _
      · rfl
      · rfl
      · exact absurd hphase (hp m l left)
      · rfl

theorem value_advance_calm (b : Behavior ι σ) (p : Preference) (i : SessionId)
    (w : Network ι σ) : (advance b.calm p i w).value = (advance b p i w).value := by
  rcases advance_cases p i w with ⟨m, -, hsame⟩ | ⟨s, m, l, left, hcall⟩
  · rw [hsame, hsame]
  · -- the reactions differ in `panics` alone, so the effects are the same
    rw [hcall, hcall, Session.callNext_eq, Session.callNext_eq]
    rfl

/-- One step of a task: a call is noted, and reported if it panicked. -/
theorem reported_advance (b : Behavior ι σ) (p : Preference) (i : SessionId)
    (w : Network ι (σ × List (CallNote ι))) :
    ∃ ns, (advance b.watched p i w).value.2.memory.2 = w.memory.2 ++ ns ∧
      Reported ns (advance b.watched.calm p i w).outputs (advance b.watched p i w).outputs := by
  rcases advance_cases p i w with ⟨m, hmemory, hsame⟩ | ⟨s, m, l, left, hcall⟩
  · rw [hsame, hsame, hmemory]
    exact ⟨[], (List.append_nil _).symm, .refl _⟩
  · rw [hcall, hcall, Session.callNext_eq, Session.callNext_eq]
    let r := b.watched l m w.memory
    let after := r.effects (w.onSession i fun s => { s with phase := .handling m left })
    refine ⟨[⟨l, m, r.panics⟩], congrArg Prod.snd (r.memory_effects _), ?_⟩
    show Reported _ ((after.outputs ++ []).map (.within s.scope)) _
    rw [List.append_nil]
    exact Reported.call ⟨l, m, r.panics⟩ s after.outputs

end Network

/-! ## Runs -/

namespace NetworkAct

theorem value_perform_calm (b : Behavior ι σ) (a : NetworkAct ι) (w : Network ι σ) :
    (a.perform b.calm w).value = (a.perform b w).value := by
  obtain c | d | ⟨p, i⟩ := a
  · rfl
  · rfl
  · exact congrArg (fun v => (none, v.2)) (Network.value_advance_calm b p i w)

theorem value_performAll_calm (b : Behavior ι σ) (acts : List (NetworkAct ι))
    (w : Network ι σ) : (performAll b.calm acts w).value = (performAll b acts w).value := by
  induction acts generalizing w with
  | nil => rfl
  | cons a rest ih => rw [value_performAll_cons, value_performAll_cons, value_perform_calm, ih]

theorem reported_perform (b : Behavior ι σ) (a : NetworkAct ι)
    (w : Network ι (σ × List (CallNote ι))) :
    ∃ ns, (a.perform b.watched w).value.2.memory.2 = w.memory.2 ++ ns ∧
      Reported ns (a.perform b.watched.calm w).outputs (a.perform b.watched w).outputs := by
  obtain c | d | ⟨p, i⟩ := a
  · have hmemory := congrArg Prod.snd (c.memory_login w)
    exact ⟨[], hmemory.trans (List.append_nil _).symm, .refl _⟩
  · have hmemory := congrArg Prod.snd (d.memory_after w)
    exact ⟨[], hmemory.trans (List.append_nil _).symm, .refl _⟩
  · rw [outputs_pump, outputs_pump]
    exact Network.reported_advance b p i w

theorem reported_performAll (b : Behavior ι σ) (acts : List (NetworkAct ι))
    (w : Network ι (σ × List (CallNote ι))) :
    ∃ ns, (performAll b.watched acts w).value.2.memory.2 = w.memory.2 ++ ns ∧
      Reported ns (performAll b.watched.calm acts w).outputs
        (performAll b.watched acts w).outputs := by
  induction acts generalizing w with
  | nil => exact ⟨[], (List.append_nil _).symm, .done⟩
  | cons a rest ih =>
    obtain ⟨ns, hnotes, hreported⟩ := reported_perform b a w
    obtain ⟨ns', hnotes', hreported'⟩ := ih (a.perform b.watched w).value.2
    refine ⟨ns ++ ns', ?_, ?_⟩
    · rw [value_performAll_cons, hnotes', hnotes, List.append_assoc]
    · rw [outputs_performAll_cons, outputs_performAll_cons, value_perform_calm]
      exact hreported.append hreported'

end NetworkAct

/-! ## Watching -/

/-- To note calls changes nothing else. -/
theorem Behavior.follows_watched (b : Behavior ι σ) : b.watched.Follows Prod.fst b :=
  fun _ _ _ => rfl

theorem Behavior.follows_watched_calm (b : Behavior ι σ) :
    b.watched.calm.Follows Prod.fst b.calm :=
  fun _ _ _ => rfl

/-- Calm listeners note the same calls as those that panic, but for the panics. -/
theorem Behavior.follows_calm_watched (b : Behavior ι σ) :
    b.watched.calm.Follows (fun s => (s.1, s.2.map CallNote.hushed)) b.calm.watched := by
  intro l m s
  simp [calm, watched, CallNote.hushed]

theorem Network.alike_watching (w : Network ι σ) : w.watching.Alike Prod.fst w :=
  ⟨rfl, rfl, rfl, rfl⟩

/-- Panics are isolated. Whatever happens on a network, with any listeners, that panic at whichever
messages: had those calls returned where they panicked, after the same effects, then all acts would
be answered the same and leave the same network, the same calls would be made in the same order, and
what is put out would be the same but for one report for each call that panics, in their order. -/
theorem NetworkAct.performAll_calm (b : Behavior ι σ) (acts : List (NetworkAct ι))
    (w : Network ι σ) :
    let notes := (performAll b.watched acts w.watching).value.2.memory.2
    let calmNotes := (performAll b.calm.watched acts w.watching).value.2.memory.2
    (performAll b.calm acts w).value = (performAll b acts w).value ∧
      calmNotes = notes.map CallNote.hushed ∧
      Reported notes (performAll b.calm acts w).outputs (performAll b acts w).outputs := by
  have hloud := w.alike_watching.agree_performAll b.follows_watched acts
  have hquiet := w.alike_watching.agree_performAll b.follows_watched_calm acts
  have hstart : w.watching.Alike (fun s => (s.1, s.2.map CallNote.hushed)) w.watching :=
    ⟨rfl, rfl, rfl, rfl⟩
  have hnotes := (hstart.agree_performAll b.follows_calm_watched acts).alike.memory_eq
  obtain ⟨ns, hns, hreported⟩ := reported_performAll b acts w.watching
  refine ⟨value_performAll_calm b acts w, ?_, ?_⟩
  · rw [value_performAll_calm b.watched acts w.watching] at hnotes
    exact congrArg Prod.snd hnotes
  · rw [hns, hloud.outputs_eq, hquiet.outputs_eq]
    exact hreported

/-- The listener `true` panics at each call, the listener `false` at none. -/
def Behavior.failing : Behavior Bool Unit := fun l _ memory => { memory, panics := l }

/-- The listener behind one that panics is called, and so are both with the next message. -/
example :
    let w : Network Bool Unit :=
      { gateways := [{ name := "loopback", manner := .loopback }], memory := () }
    let acts : List (NetworkAct Bool) :=
      [.login { token := some "abc", gateway := some 0, listeners := [true, false] },
        .deed (.inject 0 (Course.remark "a")), .deed (.inject 0 (Course.remark "b"))] ++
        List.replicate 7 (.pump .stream 0)
    (NetworkAct.performAll Behavior.failing.watched acts w.watching).value.2.memory.2.map
      (fun n => (n.message.content, n.panics)) =
        [("a", true), ("a", false), ("b", true), ("b", false)] := rfl

end CommandBot
