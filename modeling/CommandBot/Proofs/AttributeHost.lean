import CommandBot.Proofs.Accepted
import CommandBot.Proofs.ArgumentPaths
import CommandBot.Proofs.BlindReading

/-
  The two hosts of the generator: an attribute that is handed its arguments apart from the block,
  and a file in which the block carries the attribute. Reading arguments commutes with forgetting
  the places of their tokens (`readArguments_unplacedAll`), so the marker that is attached and the
  marker that is written configure a bot alike. `hosts_agree` says that both hosts come to the same
  dispatcher, or to faults that differ in their places only, and that the written marker is what
  the block's tokens behind `#[bot(…)]` are read as.
-/

namespace CommandBot

open TokenTree

/-! ## Faults without their places -/

namespace Fault

/-- A fault, as if it pointed nowhere. -/
def unplaced : Fault → Fault
  | .malformed d what _ => .malformed d what .generated
  | .configurationMissing d _ => .configurationMissing d .generated
  | .argumentMissing d argument _ => .argumentMissing d argument .generated
  | .emission d unit cause => .emission d unit cause

theorem declaration_unplaced (f : Fault) : f.unplaced.declaration = f.declaration := by
  cases f <;> rfl

theorem stage_unplaced (f : Fault) : f.unplaced.stage = f.stage := by
  cases f <;> rfl

theorem message_unplaced (f : Fault) : f.unplaced.message = f.message := by
  cases f <;> rfl

end Fault

/-! ## Arguments without their places -/

namespace TokenSource

/-- What is read, with its value mapped and the place of its error forgotten. -/
def unplacedResult {α β : Type} (f : α → β) : Except ArgumentError α → Except ArgumentError β
  | .ok a => .ok (f a)
  | .error e => .error (e.1, .generated)

theorem unplacedResult_bind {α β α' β' : Type} {f : α → α'} {g : β → β'}
    {r : Except ArgumentError α} {k : α → Except ArgumentError β}
    {k' : α' → Except ArgumentError β'} (h : ∀ a, k' (f a) = unplacedResult g (k a)) :
    (unplacedResult f r >>= k') = unplacedResult g (r >>= k) := by
  cases r with
  | error e => rfl
  | ok a => exact h a

def ArgumentPath.unplaced (p : ArgumentPath) : ArgumentPath :=
  ⟨.made p.first.text, .made p.last.text, p.isSingle⟩

def Given.unplaced (g : Given) : Given :=
  ⟨g.token.map fun v => (v.1, .generated), g.env.map fun v => (v.1, .generated)⟩

theorem placeOf_unplacedAll (ts : List TokenTree) :
    placeOf .generated (unplacedAll ts) = .generated := by
  cases ts with
  | nil => rw [unplacedAll_nil]; rfl
  | cons t rest =>
    rw [unplacedAll_cons]
    exact headSpan_unplaced t

theorem keepsPaths_unplaced : KeepsPaths TokenTree.unplaced fun _ => .generated where
  word := unplaced_word
  mark := unplaced_mark
  exists_word := exists_of_unplaced_eq_word
  exists_mark := exists_of_unplaced_eq_mark
  headSpan := headSpan_unplaced
  literalAhead ts := by
    rw [← unplacedAll_eq_map]
    exact Grammar.literalAhead_unplacedAll ts

theorem readPath_unplacedAll (close : Span) (ts : List TokenTree) :
    readPath .generated (unplacedAll ts) =
      unplacedResult (fun r => (r.1.unplaced, unplacedAll r.2)) (readPath close ts) := by
  rw [unplacedAll_eq_map]
  refine (readPath_map keepsPaths_unplaced close ts).trans ?_
  rcases readPath close ts with e | ⟨path, rest⟩
  · rfl
  · rw [unplacedResult, unplacedAll_eq_map]
    rfl

theorem readValue_unplacedAll (close : Span) (ts : List TokenTree) :
    readValue .generated (unplacedAll ts) =
      unplacedResult (fun r => ((r.1.1, Span.generated), unplacedAll r.2))
        (readValue close ts) := by
  fun_cases readValue close ts with
  | case1 spacing s text s' rest value hvalue =>
    simp only [unplacedAll_cons, unplaced_mark, unplaced_literal, readValue, hvalue]
    rfl
  | case2 spacing s text s' rest hvalue =>
    simp only [unplacedAll_cons, unplaced_mark, unplaced_literal, readValue, hvalue]
    rfl
  | case3 spacing s rest hliteral =>
    rw [unplacedAll_cons, unplaced_mark, readValue]
    · rw [isEmpty_unplacedAll, placeOf_unplacedAll]
      rfl
    · intro text s' rest' heq
      obtain ⟨t, rest, rfl, ht, -⟩ := exists_of_unplacedAll_eq_cons heq
      obtain ⟨_, rfl⟩ := exists_of_unplaced_eq_literal ht
      exact hliteral _ _ _ rfl
  | case4 ts hmark =>
    rw [readValue, placeOf_unplacedAll]
    · rfl
    · intro spacing s rest heq
      obtain ⟨t, rest, rfl, ht, -⟩ := exists_of_unplacedAll_eq_cons heq
      obtain ⟨_, rfl⟩ := exists_of_unplaced_eq_mark ht
      exact hmark _ _ _ rfl

theorem readArgument_unplacedAll (close : Span) (g : Given) (ts : List TokenTree) :
    readArgument .generated g.unplaced (unplacedAll ts) =
      unplacedResult (fun r => (r.1.unplaced, unplacedAll r.2)) (readArgument close g ts) := by
  unfold readArgument
  rw [readPath_unplacedAll close ts]
  refine unplacedResult_bind ?_
  rintro ⟨path, rest⟩
  dsimp only
  by_cases htoken : (path.isSingle && path.first.text == "token") = true
  · refine (if_pos htoken).trans ?_
    rw [if_pos htoken, readValue_unplacedAll close rest]
    exact unplacedResult_bind fun _ => rfl
  refine (if_neg htoken).trans ?_
  rw [if_neg htoken]
  by_cases henv : (path.isSingle && path.first.text == "token_env") = true
  · refine (if_pos henv).trans ?_
    rw [if_pos henv, readValue_unplacedAll close rest]
    exact unplacedResult_bind fun _ => rfl
  refine (if_neg henv).trans ?_
  rw [if_neg henv]
  rfl

/-- Reading arguments commutes with forgetting places. -/
theorem readArguments_unplacedAll (close : Span) (n : Nat) (g : Given) (ts : List TokenTree) :
    readArguments .generated n g.unplaced (unplacedAll ts) =
      unplacedResult Given.unplaced (readArguments close n g ts) := by
  induction n generalizing g ts with
  | zero => cases ts <;> simp only [unplacedAll_nil, unplacedAll_cons] <;> rfl
  | succ n ih =>
    cases ts with
    | nil => rw [unplacedAll_nil]; rfl
    | cons t rest =>
      have hread := readArgument_unplacedAll close g (t :: rest)
      rw [unplacedAll_cons] at hread ⊢
      rw [readArguments, hread, readArguments]
      · refine unplacedResult_bind ?_
        rintro ⟨g', behind⟩
        cases behind with
        | nil => simp only [unplacedAll_nil]; rfl
        | cons t' rest' =>
          simp only [unplacedAll_cons]
          cases t' with
          | word w => rw [unplaced_word]; rfl
          | literal text s => rw [unplaced_literal]; rfl
          | group d content s => rw [unplaced_group]; rfl
          | mark c spacing s =>
            rw [unplaced_mark]
            by_cases hc : c = ','
            · subst hc
              exact ih g' rest'
            · split
              · rename_i heq
                cases heq
              · rename_i heq
                cases heq
                exact absurd rfl hc
              · rename_i heq
                cases heq
                split
                · rename_i heq
                  cases heq
                · rename_i heq
                  cases heq
                  exact absurd rfl hc
                · rename_i heq
                  cases heq
                  rfl
      · simp
      · simp

/-! ## What arguments choose -/

theorem choose_unplaced (bot : String) (a b : Attribute) (g : Given) :
    (choose bot a g.unplaced).mapError Fault.unplaced =
      (choose bot b g).mapError Fault.unplaced := by
  obtain ⟨token, env⟩ := g
  cases token with
  | none => cases env <;> rfl
  | some token => cases env <;> rfl

/-- The source that arguments choose, as if the generator had made them. -/
def chosen (bot : String) (content : List TokenTree) : Except Fault TokenSource :=
  match readArguments .generated content.length {} content with
  | .ok g => (choose bot (.make botMarker []) g).mapError Fault.unplaced
  | .error e => .error (.malformed bot (.argument e.1) .generated)

/-- What an attribute of a bot with this name chooses. -/
def configured (bot : String) (a : Attribute) : Except Fault TokenSource :=
  (given bot a).bind (choose bot a)

theorem mapError_configured_listed (bot : String) (a : Attribute) (d : Delimiter)
    (content : List TokenTree) (s : Span) (ha : a.arguments = .listed d content s) :
    (configured bot a).mapError Fault.unplaced = chosen bot (unplacedAll content) := by
  have hread := readArguments_unplacedAll s.last content.length {} content
  rw [show Given.unplaced {} = {} from rfl] at hread
  simp only [configured, given, ha, chosen, length_unplacedAll, hread]
  cases readArguments s.last content.length {} content with
  | error e => rfl
  | ok g => exact (choose_unplaced bot _ a g).symm

theorem mapError_configured_absent (bot : String) (a : Attribute) (ha : a.arguments = .absent) :
    (configured bot a).mapError Fault.unplaced = chosen bot [] := by
  simp only [configured, given, ha]
  rfl

theorem mapError_configured_make (bot : String) (args : List TokenTree) :
    (configured bot (.make botMarker args)).mapError Fault.unplaced =
      chosen bot (unplacedAll args) := by
  cases args with
  | nil =>
    rw [unplacedAll_nil]
    exact mapError_configured_absent bot _ rfl
  | cons t rest => exact mapError_configured_listed bot _ _ (t :: rest) _ rfl

end TokenSource

namespace Attribute

/-- The attribute `#[name(args)]`, with the places of its sign, its name and its brackets. -/
def written (name : String) (args : List TokenTree) (sign word parens brackets : Span) :
    Attribute where
  signs := [.mark '#' .alone sign]
  path := [.word ⟨name, word⟩]
  arguments := .listed .parenthesis args parens
  bracketSpan := brackets

/-- What the tokens of a written marker are read as, whatever stands behind them. -/
theorem take_written (args : List TokenTree) (sign word parens brackets : Span)
    (rest : List TokenTree) :
    take (Grammar.op "#") ((written botMarker args sign word parens brackets).trees ++ rest) =
      some (written botMarker args sign word parens brackets, rest) := rfl

theorem isMarker_written (name : String) (args : List TokenTree)
    (sign word parens brackets : Span) :
    (written name args sign word parens brackets).isMarker name = true := by
  simp [isMarker, written]

end Attribute

/-! ## The same bot from both hosts -/

namespace Declaration

/-- The declaration with one more attribute in front. -/
def withAttribute (a : Attribute) (d : Declaration) : Declaration :=
  { d with attributes := a :: d.attributes }

theorem value_ofAttribute (args : List TokenTree) (b : ImplBlock) (hb : b.implemented = none) :
    (ofAttribute args b).value =
      (ofBlock b "" none).value.map (withAttribute (.make botMarker args)) := by
  rw [ofAttribute, hb]
  rfl

/-- An attribute in front of a block is one in front of the bot that it declares. -/
theorem value_ofBlock_cons (a : Attribute) (b : ImplBlock) (n : String) (o : Option String) :
    (ofBlock { b with attributes := a :: b.attributes } n o).value =
      (ofBlock b n o).value.map (withAttribute a) := by
  unfold ofBlock
  dsimp only
  cases nameOf b.selfType with
  | error f => rfl
  | ok name =>
    dsimp only
    split <;> rfl

end Declaration

namespace Dispatcher

theorem tokenSource_withAttribute (a : Attribute) (d : Declaration)
    (ha : a.isMarker botMarker = true) :
    TokenSource.ofDeclaration (d.withAttribute a) = TokenSource.configured d.name.text a := by
  simp only [TokenSource.ofDeclaration, TokenSource.attribute?, Declaration.withAttribute,
    List.find?_cons, ha]
  rfl

/-- Markers that choose the same source make the same dispatcher of a declaration. -/
theorem mapError_ofDeclaration_withAttribute {a a' : Attribute} (d : Declaration)
    (ha : a.isMarker botMarker = true) (ha' : a'.isMarker botMarker = true)
    (h : (TokenSource.configured d.name.text a).mapError Fault.unplaced =
      (TokenSource.configured d.name.text a').mapError Fault.unplaced) :
    ((ofDeclaration (d.withAttribute a)).value).mapError Fault.unplaced =
      ((ofDeclaration (d.withAttribute a')).value).mapError Fault.unplaced := by
  have hcommands : (d.withAttribute a).commands = (d.withAttribute a').commands := rfl
  rw [value_ofDeclaration, value_ofDeclaration, hcommands]
  cases synthesizeAll (d.withAttribute a').commands |>.value with
  | error f => rfl
  | ok hs =>
    simp only [Except.bind, value_assemble, tokenSource_withAttribute _ d ha,
      tokenSource_withAttribute _ d ha']
    cases hleft : TokenSource.configured d.name.text a with
    | error f =>
      cases hright : TokenSource.configured d.name.text a' with
      | error g =>
        rw [hleft, hright] at h
        exact congrArg Except.error (Except.error.inj h)
      | ok token =>
        rw [hleft, hright] at h
        cases h
    | ok token =>
      cases hright : TokenSource.configured d.name.text a' with
      | error g =>
        rw [hleft, hright] at h
        cases h
      | ok token' =>
        rw [hleft, hright] at h
        cases h
        rfl

end Dispatcher

theorem Expansion.outcome_ofAttribute (args : List TokenTree) (b : ImplBlock) :
    (ofAttribute args b).value.outcome =
      (Declaration.ofAttribute args b).value.bind fun d => (Dispatcher.ofDeclaration d).value := by
  rw [ofAttribute, Logged.value_bind]
  cases (Declaration.ofAttribute args b).value <;> rfl

/-- On an inherent block both hosts generate the same dispatcher, or come to the same fault with
other places; and `#[bot(args)]` in front of the block's tokens is the marker that the block then
has in front of its attributes. -/
theorem hosts_agree (b : ImplBlock) (hb : b.implemented = none) (args written : List TokenTree)
    (hargs : unplacedAll written = unplacedAll args) (sign word parens brackets : Span) :
    let marker := Attribute.written botMarker written sign word parens brackets
    let marked : ImplBlock := { b with attributes := marker :: b.attributes }
    let attached := (Expansion.ofAttribute args b).value.outcome
    let inFile := (Declaration.ofBlock marked "" none).value.bind fun d =>
      (Dispatcher.ofDeclaration d).value
    ((∃ u, attached = .ok u ∧ inFile = .ok u) ∨
      ∃ f g, attached = .error f ∧ inFile = .error g ∧ f.unplaced = g.unplaced ∧
        f.declaration = g.declaration ∧ f.stage = g.stage ∧ f.message = g.message) ∧
    ∀ ts, Take.all? ImplBlock.take ts = some b →
      Take.all? ImplBlock.take (marker.trees ++ ts) = some marked := by
  intro marker marked attached inFile
  have houtcome : attached.mapError Fault.unplaced = inFile.mapError Fault.unplaced := by
    have hmarker : marker.isMarker botMarker = true := Attribute.isMarker_written ..
    have hattached : attached = ((Declaration.ofBlock b "" none).value.map
        (Declaration.withAttribute (.make botMarker args))).bind fun d =>
          (Dispatcher.ofDeclaration d).value := by
      rw [← Declaration.value_ofAttribute args b hb]
      exact Expansion.outcome_ofAttribute args b
    have hinFile : inFile = ((Declaration.ofBlock b "" none).value.map
        (Declaration.withAttribute marker)).bind fun d => (Dispatcher.ofDeclaration d).value := by
      rw [← Declaration.value_ofBlock_cons]
    rw [hattached, hinFile]
    cases (Declaration.ofBlock b "" none).value with
    | error f => rfl
    | ok d =>
      refine Dispatcher.mapError_ofDeclaration_withAttribute d (Attribute.isMarker_make _ _) hmarker ?_
      rw [TokenSource.mapError_configured_make,
        TokenSource.mapError_configured_listed _ marker .parenthesis written parens rfl, hargs]
  refine ⟨?_, ?_⟩
  · cases ha : attached with
    | ok u =>
      cases hf : inFile with
      | ok v =>
        rw [ha, hf] at houtcome
        cases houtcome
        exact .inl ⟨u, rfl, rfl⟩
      | error g =>
        rw [ha, hf] at houtcome
        cases houtcome
    | error f =>
      cases hf : inFile with
      | ok v =>
        rw [ha, hf] at houtcome
        cases houtcome
      | error g =>
        rw [ha, hf] at houtcome
        have hfaults : f.unplaced = g.unplaced := Except.error.inj houtcome
        refine .inr ⟨f, g, rfl, rfl, hfaults, ?_, ?_, ?_⟩
        · rw [← f.declaration_unplaced, hfaults, g.declaration_unplaced]
        · rw [← f.stage_unplaced, hfaults, g.stage_unplaced]
        · rw [← f.message_unplaced, hfaults, g.message_unplaced]
  · intro ts hts
    rw [Take.all?_eq_some] at hts ⊢
    rw [ImplBlock.take_cons rfl (Attribute.take_written written sign word parens brackets ts), hts]
    rfl

/-- A bot that is marked already, without arguments. -/
def markedBot : ImplBlock where
  attributes := [.make botMarker []]
  words := [made "impl"]
  generics := []
  implemented := none
  selfType := ⟨[made "Greeter"]⟩
  clause := []
  members := []
  bodySpan := .generated

/-- The arguments `token = "sesame"`, as they stand behind a place. -/
def sesameArguments (s : Span) : List TokenTree :=
  [.word ⟨"token", s⟩, .mark '=' .alone s, .literal "\"sesame\"" s]

theorem hosts_agree_markedBot :
    let place := Span.written ⟨1, 6⟩ ⟨1, 22⟩
    let marker := Attribute.written botMarker (sesameArguments place) place place place place
    let marked : ImplBlock := { markedBot with attributes := marker :: markedBot.attributes }
    markedBot.implemented = none ∧
      unplacedAll (sesameArguments place) = unplacedAll (sesameArguments .generated) ∧
      (∃ u, (Expansion.ofAttribute (sesameArguments .generated) markedBot).value.outcome = .ok u ∧
        ((Declaration.ofBlock marked "" none).value.bind fun d =>
          (Dispatcher.ofDeclaration d).value) = .ok u ∧
        u.token = .literal "sesame") ∧
      Take.all? ImplBlock.take (marker.trees ++ markedBot.trees) = some marked := by
  intro place marker marked
  have hargs : unplacedAll (sesameArguments place) = unplacedAll (sesameArguments .generated) := by
    simp [sesameArguments, unplacedAll, unplaced, Word.made]
  obtain ⟨hboth, htokens⟩ := hosts_agree markedBot rfl (sesameArguments .generated)
    (sesameArguments place) hargs place place place place
  refine ⟨rfl, hargs, ?_, htokens markedBot.trees rfl⟩
  rcases hboth with ⟨u, hu, hu'⟩ | ⟨f, g, hf, -⟩
  · refine ⟨u, hu, hu', ?_⟩
    cases hu
    rfl
  · cases hf

end CommandBot
