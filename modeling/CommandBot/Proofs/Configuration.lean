import CommandBot.Proofs.ArgumentGrammar

/-
  The configuration of a bot. The first attribute whose path ends in the marker is read, and only
  that one; `Configured` says what its arguments come to. A list of them that gives one of the two
  keys, and never the other, chooses the value given last, and everything else is an error
  (`ofDeclaration_by_grammar`).
-/

namespace CommandBot

/-! ## The attribute -/

namespace Attribute

/-- The tokens of an attribute's arguments and the place behind them; an attribute without brackets
has none, and one with a value has no arguments. -/
def argumentList? (a : Attribute) : Option (List TokenTree × Span) :=
  match a.arguments with
  | .absent => some ([], .generated)
  | .listed _ content s => some (content, s.last)
  | .assigned _ _ => none

end Attribute

namespace TokenSource

/-! ## What some arguments give -/

/-- The value that is given last for a key, with its place. -/
def lastValue (key : ArgumentKey) (as : List Argument) : Option (String × Span) :=
  (as.reverse.find? fun a => a.key = key).map fun a => (a.value, a.place)

variable {key : ArgumentKey} {as : List Argument}

theorem lastValue_cons (key : ArgumentKey) (a : Argument) (as : List Argument) :
    lastValue key (a :: as) =
      (lastValue key as).or (if a.key = key then some (a.value, a.place) else none) := by
  unfold lastValue
  rw [List.reverse_cons, List.find?_append, Option.map_or]
  by_cases h : a.key = key <;> simp [h]

/-- A later argument replaces an earlier one for its key. -/
theorem foldl_add (as : List Argument) (g : Given) :
    as.foldl Given.add g = ⟨(lastValue .token as).or g.token, (lastValue .env as).or g.env⟩ := by
  induction as generalizing g with
  | nil => rfl
  | cons a as ih =>
    rw [List.foldl_cons, ih, lastValue_cons, lastValue_cons, Option.or_assoc, Option.or_assoc]
    unfold Given.add
    cases a.key <;> simp

theorem given_foldl (as : List Argument) :
    as.foldl Given.add {} = ⟨lastValue .token as, lastValue .env as⟩ := by
  rw [foldl_add, Option.or_none, Option.or_none]

theorem lastValue_eq_none_iff : lastValue key as = none ↔ ∀ a ∈ as, a.key ≠ key := by
  simp [lastValue, List.find?_eq_none]

theorem lastValue_of_forall (h : ∀ a ∈ as, a.key = key) :
    lastValue key as = as.getLast?.map fun a => (a.value, a.place) := by
  rw [← List.head?_reverse]
  have hreverse : ∀ a ∈ as.reverse, a.key = key := fun a ha => h a (List.mem_reverse.mp ha)
  unfold lastValue
  rcases hcase : as.reverse with _ | ⟨a, rest⟩
  · rfl
  · have ha : a.key = key := hreverse a (hcase ▸ List.mem_cons_self)
    simp [ha]

theorem lastValue_append_cons {before after : List Argument} {a : Argument} (ha : a.key = key)
    (hafter : ∀ b ∈ after, b.key ≠ key) :
    lastValue key (before ++ a :: after) = some (a.value, a.place) := by
  have hnone : after.reverse.find? (fun b => decide (b.key = key)) = none :=
    List.find?_eq_none.mpr fun b hb => by
      simpa using hafter b (List.mem_reverse.mp hb)
  rw [lastValue, List.reverse_append, List.reverse_cons, List.append_assoc, List.find?_append, hnone]
  simp [ha]

theorem ArgumentKey.ne_token_iff : key ≠ .token ↔ key = .env := by
  cases key <;> decide

theorem ArgumentKey.ne_env_iff : key ≠ .env ↔ key = .token := by
  cases key <;> decide

/-! ## What they choose -/

/-- What the arguments `ts` of the attribute `a` of a bot come to; `close` is the place behind
them. -/
structure Configured (bot : String) (a : Attribute) (ts : List TokenTree) (close : Span)
    (result : Except Fault TokenSource) : Prop where
  /-- Exactly the lists that give one key, once or more often, are accepted, with the last value. -/
  ok_iff : ∀ source, result = .ok source ↔
    ∃ as last, Lists ts as ∧ as.getLast? = some last ∧ (∀ b ∈ as, b.key = last.key) ∧
      source = last.key.source last.value
  missing : Lists ts [] → result = .error (.argumentMissing bot "token" a.span)
  /-- With both keys, it is the value for the variable that is in the wrong place. -/
  both : ∀ before e after, Lists ts (before ++ e :: after) → e.key = .env →
    (∀ b ∈ after, b.key = .token) → (∃ b ∈ before ++ after, b.key = .token) →
      result = .error (.malformed bot .bothTokens e.place)
  /-- Outside the grammar, the first offence is reported and nothing else. -/
  offence_iff : ∀ fault place,
    result = .error (.malformed bot (.argument fault) place) ↔ FirstOffence close ts fault place
  offence_of_not_lists : (∀ as, ¬ Lists ts as) → ∃ fault place, FirstOffence close ts fault place

variable {bot : String} {a : Attribute} {ts : List TokenTree} {close : Span}

theorem given_of_lists (ha : a.argumentList? = some (ts, close)) (h : Lists ts as) :
    given bot a = .ok ⟨lastValue .token as, lastValue .env as⟩ := by
  have hread : readArguments close _ {} ts = _ := readArguments_of_lists h (Nat.le_refl _) {}
  rw [given_foldl] at hread
  rcases harguments : a.arguments with _ | ⟨delimiter, content, s⟩ | ⟨equals, value⟩
  · rw [Attribute.argumentList?, harguments] at ha
    cases ha
    rw [given, harguments]
    exact congrArg Except.ok (Except.ok.inj hread)
  · rw [Attribute.argumentList?, harguments] at ha
    cases ha
    rw [given, harguments]
    dsimp only
    rw [hread]
  · rw [Attribute.argumentList?, harguments] at ha
    cases ha

theorem given_of_firstOffence (ha : a.argumentList? = some (ts, close)) {fault : ArgumentFault}
    {place : Span} (h : FirstOffence close ts fault place) :
    given bot a = .error (.malformed bot (.argument fault) place) := by
  have hread : readArguments close _ {} ts = _ :=
    readArguments_of_firstOffence h (Nat.le_refl _) {}
  rcases harguments : a.arguments with _ | ⟨delimiter, content, s⟩ | ⟨equals, value⟩
  · rw [Attribute.argumentList?, harguments] at ha
    cases ha
    -- Nothing is no offence.
    exact nomatch hread
  · rw [Attribute.argumentList?, harguments] at ha
    cases ha
    rw [given, harguments]
    dsimp only
    rw [hread]
  · rw [Attribute.argumentList?, harguments] at ha
    cases ha

theorem chosen_of_lists (ha : a.argumentList? = some (ts, close)) (h : Lists ts as) :
    (given bot a).bind (choose bot a) =
      choose bot a ⟨lastValue .token as, lastValue .env as⟩ := by
  rw [given_of_lists ha h]
  rfl

/-- Arguments for one key alone choose the last of them. -/
theorem choose_of_forall {last : Argument} (hlast : as.getLast? = some last)
    (h : ∀ b ∈ as, b.key = last.key) :
    choose bot a ⟨lastValue .token as, lastValue .env as⟩ =
      .ok (last.key.source last.value) := by
  have hvalue := lastValue_of_forall h
  rw [hlast, Option.map_some] at hvalue
  have hother : ∀ key, key ≠ last.key → lastValue key as = none := fun key hkey =>
    lastValue_eq_none_iff.mpr fun b hb hb' => hkey (hb'.symm.trans (h b hb))
  cases hkey : last.key with
  | token =>
    rw [hkey] at hvalue hother
    rw [hvalue, hother .env (by decide)]
    rfl
  | env =>
    rw [hkey] at hvalue hother
    rw [hvalue, hother .token (by decide)]
    rfl

theorem exists_getLast?_of_ne_nil (h : as ≠ []) : ∃ last, as.getLast? = some last ∧ last ∈ as :=
  ⟨as.getLast h, List.getLast?_eq_some_getLast h, List.getLast_mem h⟩

/-- If something is chosen, one key alone is given. -/
theorem exists_of_choose_eq_ok {source : TokenSource}
    (h : choose bot a ⟨lastValue .token as, lastValue .env as⟩ = .ok source) :
    ∃ last, as.getLast? = some last ∧ ∀ b ∈ as, b.key = last.key := by
  have hne : as ≠ [] := by
    rintro rfl
    exact nomatch h
  obtain ⟨last, hlast, hmem⟩ := exists_getLast?_of_ne_nil hne
  refine ⟨last, hlast, ?_⟩
  rcases htoken : lastValue .token as with _ | token
  · have henv : ∀ b ∈ as, b.key = .env := fun b hb =>
      ArgumentKey.ne_token_iff.mp (lastValue_eq_none_iff.mp htoken b hb)
    exact fun b hb => (henv b hb).trans (henv last hmem).symm
  · rcases henv : lastValue .env as with _ | env
    · have htoken : ∀ b ∈ as, b.key = .token := fun b hb =>
        ArgumentKey.ne_env_iff.mp (lastValue_eq_none_iff.mp henv b hb)
      exact fun b hb => (htoken b hb).trans (htoken last hmem).symm
    · rw [htoken, henv] at h
      exact nomatch h

theorem choose_of_both {before after : List Argument} {e : Argument} (he : e.key = .env)
    (hafter : ∀ b ∈ after, b.key = .token) (htoken : ∃ b ∈ before ++ after, b.key = .token) :
    choose bot a ⟨lastValue .token (before ++ e :: after), lastValue .env (before ++ e :: after)⟩ =
      .error (.malformed bot .bothTokens e.place) := by
  have henv : lastValue .env (before ++ e :: after) = some (e.value, e.place) :=
    lastValue_append_cons he fun b hb => ArgumentKey.ne_env_iff.mpr (hafter b hb)
  have hsome : lastValue .token (before ++ e :: after) ≠ none := by
    obtain ⟨b, hb, hkey⟩ := htoken
    refine fun hnone => lastValue_eq_none_iff.mp hnone b ?_ hkey
    rw [List.mem_append, List.mem_cons]
    exact (List.mem_append.mp hb).imp id Or.inr
  obtain ⟨token, htoken⟩ := Option.ne_none_iff_exists'.mp hsome
  rw [htoken, henv]
  rfl

theorem choose_ne_offence (g : Given) (fault : ArgumentFault) (place : Span) :
    choose bot a g ≠ .error (.malformed bot (.argument fault) place) := by
  unfold choose
  split <;> exact fun h => nomatch h

theorem configured_of_argumentList? (ha : a.argumentList? = some (ts, close)) :
    Configured bot a ts close ((given bot a).bind (choose bot a)) where
  ok_iff source := by
    constructor
    · intro hok
      rcases lists_or_firstOffence close ts with ⟨as, has⟩ | ⟨fault, place, hoffence⟩
      · rw [chosen_of_lists ha has] at hok
        obtain ⟨last, hlast, hkeys⟩ := exists_of_choose_eq_ok hok
        rw [choose_of_forall hlast hkeys] at hok
        exact ⟨as, last, has, hlast, hkeys, (Except.ok.inj hok).symm⟩
      · rw [given_of_firstOffence ha hoffence] at hok
        exact nomatch hok
    · rintro ⟨as, last, has, hlast, hkeys, rfl⟩
      rw [chosen_of_lists ha has, choose_of_forall hlast hkeys]
  missing h := by
    rw [chosen_of_lists ha h]
    rfl
  both before e after h he hafter htoken := by
    rw [chosen_of_lists ha h, choose_of_both he hafter htoken]
  offence_iff fault place := by
    constructor
    · intro herror
      rcases lists_or_firstOffence close ts with ⟨as, has⟩ | ⟨fault', place', hoffence⟩
      · rw [chosen_of_lists ha has] at herror
        exact absurd herror (choose_ne_offence _ fault place)
      · rw [given_of_firstOffence ha hoffence] at herror
        cases herror
        exact hoffence
    · intro hoffence
      rw [given_of_firstOffence ha hoffence]
      rfl
  offence_of_not_lists hnot := by
    rcases lists_or_firstOffence close ts with ⟨as, has⟩ | hoffence
    · exact absurd has (hnot as)
    · exact hoffence

/-! ## The configuration of a declaration -/

variable {d : Declaration}

theorem attribute?_of_first {before after : List Attribute}
    (hd : d.attributes = before ++ a :: after) (hbefore : ∀ b ∈ before, ¬ b.EndsIn botMarker)
    (ha : a.EndsIn botMarker) : attribute? d = some a := by
  rw [attribute?, hd, List.find?_append, List.find?_eq_none.mpr]
  · have hmarker := (a.isMarker_iff botMarker).mpr ha
    simp [hmarker]
  · exact fun b hb h => hbefore b hb ((b.isMarker_iff botMarker).mp h)

theorem attribute?_of_none (h : ∀ a ∈ d.attributes, ¬ a.EndsIn botMarker) : attribute? d = none :=
  List.find?_eq_none.mpr fun a ha hmarker => h a ha ((a.isMarker_iff botMarker).mp hmarker)

/-- A declaration without an attribute for bots has no configuration. Otherwise the first one is it:
a value in place of its arguments is an error, and arguments come to what their grammar says. -/
theorem ofDeclaration_by_grammar (d : Declaration) :
    ((∀ a ∈ d.attributes, ¬ a.EndsIn botMarker) →
      ofDeclaration d = .error (.configurationMissing d.name.text d.name.span)) ∧
    ∀ before a after, d.attributes = before ++ a :: after → (∀ b ∈ before, ¬ b.EndsIn botMarker) →
      a.EndsIn botMarker →
      (a.argumentList? = none →
        ∃ place, ofDeclaration d = .error (.malformed d.name.text .assignedArguments place)) ∧
      ∀ ts close, a.argumentList? = some (ts, close) →
        Configured d.name.text a ts close (ofDeclaration d) := by
  refine ⟨fun hnone => ?_, fun before a after hd hbefore ha => ?_⟩
  · rw [ofDeclaration, attribute?_of_none hnone]
  · have hread : ofDeclaration d = (given d.name.text a).bind (choose d.name.text a) := by
      rw [ofDeclaration, attribute?_of_first hd hbefore ha]
    rw [hread]
    refine ⟨fun hnone => ?_, fun ts close harguments => configured_of_argumentList? harguments⟩
    rcases harguments : a.arguments with _ | ⟨delimiter, content, s⟩ | ⟨equals, value⟩
    · rw [Attribute.argumentList?, harguments] at hnone
      cases hnone
    · rw [Attribute.argumentList?, harguments] at hnone
      cases hnone
    · refine ⟨TokenTree.spanOf (a.path ++ equals ++ value), ?_⟩
      rw [given, harguments]
      rfl

/-- A bot whose attribute has these arguments and comes after another one. -/
def bossBot (arguments : List TokenTree) : Declaration where
  namespace_ := ""
  name := .made "Boss"
  selfType := ⟨[.made "Boss"]⟩
  attributes := [.make "allow" [], .make "bot" arguments]
  commands := []
  origin := none

/-- The later of two tokens is chosen; a variable's name without `=` is the first offence, though both
keys are there; and both keys in order are one too many. -/
theorem ofDeclaration_by_grammar_boss :
    let given := fun (key text : String) (sign : List TokenTree) =>
      .made key :: sign ++ [.literal text .generated]
    let equals : List TokenTree := [.mark '=' .alone .generated]
    let comma : List TokenTree := [.mark ',' .alone .generated]
    let accepted := given "token" "\"a\"" equals ++ comma ++ given "token" "r\"b\"" equals ++ comma
    let offending := given "token" "\"a\"" equals ++ comma ++ given "token_env" "\"B\"" []
    let both := given "token" "\"a\"" equals ++ comma ++ given "token_env" "\"B\"" equals
    (ofDeclaration (bossBot accepted) = .ok (.literal "b") ∧
      ∃ as last, Lists accepted as ∧ as.getLast? = some last ∧
        last.key.source last.value = .literal "b") ∧
    (ofDeclaration (bossBot offending) =
        .error (.malformed "Boss" (.argument .noSign) .generated) ∧
      FirstOffence .generated offending .noSign .generated) ∧
    ofDeclaration (bossBot both) = .error (.malformed "Boss" .bothTokens .generated) ∧
      ∀ fault place, ¬ FirstOffence .generated both fault place := by
  intro given equals comma accepted offending both
  have configured : ∀ arguments, arguments ≠ [] →
      Configured "Boss" (.make "bot" arguments) arguments .generated
        (ofDeclaration (bossBot arguments)) := by
    intro arguments hne
    refine ((ofDeclaration_by_grammar (bossBot arguments)).2 [.make "allow" []] (.make "bot" arguments)
      [] rfl ?_ ?_).2 arguments .generated ?_
    · intro b hb
      rw [List.mem_singleton.mp hb, ← Attribute.isMarker_iff]
      exact Bool.false_ne_true
    · exact (Attribute.isMarker_iff _ _).mp (Attribute.isMarker_make "bot" arguments)
    · rw [Attribute.argumentList?, Attribute.make, List.isEmpty_eq_false_iff.mpr hne]
      rfl
  have haccepted : ofDeclaration (bossBot accepted) = .ok (.literal "b") := rfl
  have hoffending : ofDeclaration (bossBot offending) =
      .error (.malformed "Boss" (.argument .noSign) .generated) := rfl
  have hboth : ofDeclaration (bossBot both) = .error (.malformed "Boss" .bothTokens .generated) := rfl
  refine ⟨⟨haccepted, ?_⟩, ⟨hoffending, ?_⟩, hboth, ?_⟩
  · obtain ⟨as, last, has, hlast, -, hsource⟩ :=
      ((configured accepted (List.cons_ne_nil _ _)).ok_iff _).mp haccepted
    exact ⟨as, last, has, hlast, hsource.symm⟩
  · exact ((configured offending (List.cons_ne_nil _ _)).offence_iff _ _).mp hoffending
  · intro fault place h
    have herror := ((configured both (List.cons_ne_nil _ _)).offence_iff fault place).mpr h
    rw [hboth] at herror
    cases herror

end TokenSource

end CommandBot
