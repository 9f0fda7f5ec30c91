import CommandBot.Proofs.BlindGeneration

/-
  Bots without the values of their tokens. `redacted` takes the value out of each `token = "..."`
  among the arguments of a bot's attribute, and forgets all places; two bots have the same image
  exactly when they differ in no more than that. A bot is resolved as its redacted one is
  (`BotSource.mirrors_resolve`), and what its arguments choose is the same but for the token
  (`chosen_redacted`).
-/

namespace CommandBot

open TokenTree

namespace Literal

/-- A literal for the empty text, in place of one for any text. -/
def emptied (text : String) : String :=
  if (textValue? text.toList).isSome then "\"\"" else text

theorem textValue?_empty : textValue? "\"\"".toList = some [] := by
  simp [textValue?, Text.unescape]

theorem emptied_of_some {text : String} {value : List Char}
    (h : textValue? text.toList = some value) : emptied text = "\"\"" := by
  unfold emptied
  rw [h]
  rfl

theorem emptied_of_none {text : String} (h : textValue? text.toList = none) :
    emptied text = text := by
  unfold emptied
  rw [h]
  rfl

theorem textValue?_emptied (text : String) :
    textValue? (emptied text).toList = (textValue? text.toList).map fun _ => [] := by
  rcases h : textValue? text.toList with _ | value
  · rw [emptied_of_none h, h]
    rfl
  · rw [emptied_of_some h, textValue?_empty]
    rfl

theorem emptied_emptied (text : String) : emptied (emptied text) = emptied text := by
  rcases h : textValue? text.toList with _ | value
  · rw [emptied_of_none h, emptied_of_none h]
  · rw [emptied_of_some h, emptied_of_some textValue?_empty]

end Literal

/-- A token, for the empty text if it is a literal for a text. -/
def TokenTree.blank : TokenTree → TokenTree
  | .literal text s => .literal (Literal.emptied text) s
  | t => t

theorem TokenTree.blank_literal (text : String) (s : Span) :
    blank (.literal text s) = .literal (Literal.emptied text) s := rfl

namespace Grammar

theorem isNumber_blank (t : TokenTree) : isNumber t.blank = isNumber t := by
  rcases t with w | ⟨c, spacing, s⟩ | ⟨text, s⟩ | ⟨d, content, s⟩
  · rfl
  · rfl
  · rw [blank_literal]
    rcases h : Literal.textValue? text.toList with _ | value
    · rw [Literal.emptied_of_none h]
    · -- What stands for a text begins with a quote or with the letter of a raw literal.
      rw [Literal.emptied_of_some h]
      unfold Literal.textValue? at h
      simp only [isNumber]
      split at h
      · rename_i rest heq
        rw [heq]
        rfl
      · rename_i rest heq
        rw [heq]
        rfl
      · contradiction
  · rfl

theorem literalAhead_blank (ts : List TokenTree) :
    literalAhead (ts.map TokenTree.blank) = literalAhead ts := by
  rcases ts with _ | ⟨t, rest⟩
  · rfl
  · rcases t with w | ⟨c, spacing, s⟩ | ⟨text, s⟩ | ⟨d, content, s⟩
    · rfl
    · rcases rest with _ | ⟨t, rest⟩
      · rfl
      · by_cases hc : c = '-'
        · subst hc
          exact isNumber_blank t
        · simp [literalAhead, TokenTree.blank, hc]
    · rfl
    · rfl

end Grammar

namespace TokenSource

/-! ## Paths of arguments -/

theorem headSpan_blank (t : TokenTree) : (blank t).headSpan = t.headSpan := by
  rcases t with _ | _ | _ | _ <;> rfl

theorem blank_eq_word {t : TokenTree} {w : Word} (h : blank t = .word w) : t = .word w := by
  rcases t with _ | _ | _ | _
  · exact h
  all_goals exact nomatch h

theorem blank_eq_mark {t : TokenTree} {c : Char} {spacing : Spacing} {s : Span}
    (h : blank t = .mark c spacing s) : t = .mark c spacing s := by
  rcases t with _ | _ | _ | _
  · exact nomatch h
  · exact h
  all_goals exact nomatch h

theorem keepsPaths_blank : KeepsPaths blank id where
  word _ := rfl
  mark _ _ _ := rfl
  exists_word h := ⟨_, blank_eq_word h⟩
  exists_mark h := ⟨_, blank_eq_mark h⟩
  headSpan := headSpan_blank
  literalAhead := Grammar.literalAhead_blank

theorem placeOf_map_blank (close : Span) (ts : List TokenTree) :
    placeOf close (ts.map blank) = placeOf close ts :=
  placeOf_map keepsPaths_blank close ts

/-- The path of an argument is read without looking into literals for texts. -/
theorem readPath_blank (close : Span) (ts : List TokenTree) :
    readPath close (ts.map blank) =
      (readPath close ts).map fun r => (r.1, r.2.map blank) := by
  refine (readPath_map keepsPaths_blank close ts).trans ?_
  rcases readPath close ts with e | r <;> rfl

theorem length_of_readPathTail {close : Span} {last last' : Word} {ts rest : List TokenTree}
    (h : readPathTail close last ts = .ok (last', rest)) :
    rest.length ≤ ts.length ∧ (rest.length = ts.length → last' = last ∧ rest = ts) := by
  fun_induction readPathTail close last ts with
  | case1 last s s' s'' w behind ih =>
    have hbehind := (ih h).1
    simp only [List.length_cons]
    exact ⟨by omega, by omega⟩
  | case2 => contradiction
  | case3 last ts hword hmark =>
    obtain ⟨rfl, rfl⟩ := Prod.mk.inj (Except.ok.inj h)
    exact ⟨Nat.le_refl _, fun _ => ⟨rfl, rfl⟩⟩

theorem eq_cons_of_readPathFrom {close : Span} {isRooted : Bool} {ts rest : List TokenTree}
    {path : ArgumentPath} (h : readPathFrom close isRooted ts = .ok (path, rest))
    (hsingle : path.isSingle = true) : isRooted = false ∧ ts = .word path.first :: rest := by
  fun_cases readPathFrom close isRooted ts with
  | case1 w behind =>
    rw [readPathFrom] at h
    rcases htail : readPathTail close w behind with e | ⟨last, rest'⟩
    · rw [htail] at h
      contradiction
    · rw [htail] at h
      obtain ⟨rfl, rfl⟩ := Prod.mk.inj (Except.ok.inj h)
      simp only [Bool.and_eq_true, Bool.not_eq_true', beq_iff_eq] at hsingle
      obtain ⟨-, rfl⟩ := (length_of_readPathTail htail).2 hsingle.2
      exact ⟨hsingle.1, rfl⟩
  | case2 => contradiction
  | case3 ts hword hnil =>
    rw [readPathFrom] at h
    · contradiction
    · exact hword
    · exact hnil

/-- A path of a single word is what stands first. -/
theorem eq_cons_of_isSingle {close : Span} {ts rest : List TokenTree} {path : ArgumentPath}
    (h : readPath close ts = .ok (path, rest)) (hsingle : path.isSingle = true) :
    ts = .word path.first :: rest := by
  fun_cases readPath close ts with
  | case1 s spacing s' behind =>
    have hrooted : readPathFrom close true behind = .ok (path, rest) := h
    exact Bool.noConfusion (eq_cons_of_readPathFrom hrooted hsingle).1
  | case2 ts hmark =>
    rw [readPath] at h
    · exact (eq_cons_of_readPathFrom h hsingle).2
    · exact hmark

/-! ## Arguments -/

/-- The text of a literal that is given for a key, without the value of a token. -/
def redactedText (key text : String) : String :=
  if key == "token" then Literal.emptied text else text

theorem textValue?_redactedText (key : String) {text : String} {value : List Char}
    (h : Literal.textValue? text.toList = some value) :
    Literal.textValue? (redactedText key text).toList =
      some (if key == "token" then [] else value) := by
  unfold redactedText
  split
  · rw [Literal.textValue?_emptied, h]
    rfl
  · exact h

/-- Some arguments without the values of tokens. -/
def redactedAll : List TokenTree → List TokenTree
  | [] => []
  | .word w :: .mark '=' spacing s :: .literal text s' :: rest =>
    .word w :: .mark '=' spacing s :: .literal (redactedText w.text text) s' :: redactedAll rest
  | t :: rest => t :: redactedAll rest

/-- What arguments give, without the value of the token. -/
def Given.redacted (g : Given) : Given := { g with token := g.token.map fun v => ("", v.2) }

theorem blank_redactedText (key text : String) (s : Span) :
    blank (.literal (redactedText key text) s) = blank (.literal text s) := by
  unfold redactedText
  split
  · rw [blank_literal, Literal.emptied_emptied]
    rfl
  · rfl

/-- Nothing but literals for texts changes. -/
theorem map_blank_redactedAll (ts : List TokenTree) :
    (redactedAll ts).map blank = ts.map blank := by
  fun_induction redactedAll ts with
  | case1 => rfl
  | case2 w spacing s text s' rest ih =>
    rw [List.map_cons, List.map_cons, List.map_cons, blank_redactedText, ih]
    rfl
  | case3 t rest h ih => rw [List.map_cons, ih, List.map_cons]

theorem length_redactedAll (ts : List TokenTree) : (redactedAll ts).length = ts.length := by
  rw [← List.length_map blank, map_blank_redactedAll, List.length_map]

theorem isEmpty_redactedAll (ts : List TokenTree) : (redactedAll ts).isEmpty = ts.isEmpty := by
  rw [← List.isEmpty_map (f := blank), map_blank_redactedAll, List.isEmpty_map]

theorem placeOf_redactedAll (close : Span) (ts : List TokenTree) :
    placeOf close (redactedAll ts) = placeOf close ts := by
  rw [← placeOf_map_blank, map_blank_redactedAll, placeOf_map_blank]

theorem exists_redactedAll_cons (t : TokenTree) (rest : List TokenTree) :
    ∃ rest', redactedAll (t :: rest) = t :: rest' := by
  generalize hts : t :: rest = ts
  fun_cases redactedAll ts with
  | case1 => contradiction
  | case2 w spacing s text s' rest =>
    obtain ⟨rfl, -⟩ := List.cons.inj hts
    exact ⟨_, rfl⟩
  | case3 =>
    obtain ⟨rfl, -⟩ := List.cons.inj hts
    exact ⟨_, rfl⟩

theorem exists_of_redactedAll_eq_cons {ts rest : List TokenTree} {t : TokenTree}
    (h : redactedAll ts = t :: rest) : ∃ rest', ts = t :: rest' := by
  rcases ts with _ | ⟨t', rest'⟩
  · contradiction
  · obtain ⟨_, hcons⟩ := exists_redactedAll_cons t' rest'
    obtain ⟨rfl, -⟩ := List.cons.inj (hcons.symm.trans h)
    exact ⟨rest', rfl⟩

theorem redactedAll_mark (c : Char) (spacing : Spacing) (s : Span) (rest : List TokenTree) :
    redactedAll (.mark c spacing s :: rest) = .mark c spacing s :: redactedAll rest := by
  rw [redactedAll]
  intros
  contradiction

/-- A value is read with what stands behind it, whether its literal is redacted or not. -/
theorem readValue_redactedAll (close : Span) {w : Word} {rest rest' : List TokenTree}
    (h : redactedAll (.word w :: rest) = .word w :: rest') :
    readValue close rest' = (readValue close rest).map fun r =>
      ((if w.text == "token" then "" else r.1.1, r.1.2), redactedAll r.2) := by
  fun_cases readValue close rest with
  | case1 spacing s text s' behind value hvalue =>
    rw [redactedAll] at h
    obtain rfl := (List.cons.inj h).2
    have hempty : String.ofList (if w.text == "token" then [] else value) =
        if w.text == "token" then "" else String.ofList value := by
      split <;> rfl
    simp only [readValue, textValue?_redactedText w.text hvalue, hempty]
    rfl
  | case2 spacing s text s' behind hvalue =>
    rw [redactedAll] at h
    obtain rfl := (List.cons.inj h).2
    have htext : redactedText w.text text = text := by
      unfold redactedText
      rw [Literal.emptied_of_none hvalue, ite_self]
    simp only [readValue, htext, hvalue]
    rfl
  | case3 spacing s behind hliteral =>
    have hbehind : rest' = .mark '=' spacing s :: redactedAll behind := by
      rw [redactedAll] at h
      · exact (List.cons.inj h).2.symm
      · intro w' spacing' s₁ text s₂ more _ heq
        exact hliteral _ _ _ (List.cons.inj heq).2
    rw [hbehind, readValue]
    · rw [isEmpty_redactedAll, placeOf_redactedAll]
      rfl
    · intro text s' more heq
      obtain ⟨more', rfl⟩ := exists_of_redactedAll_eq_cons heq
      exact hliteral _ _ _ rfl
  | case4 rest hmark =>
    have hbehind : rest' = redactedAll rest := by
      rw [redactedAll] at h
      · exact (List.cons.inj h).2.symm
      · intro w' spacing' s₁ text s₂ more _ heq
        exact hmark _ _ _ heq
    rw [hbehind, readValue, placeOf_redactedAll]
    · rfl
    · intro spacing s more heq
      obtain ⟨more', rfl⟩ := exists_of_redactedAll_eq_cons heq
      exact hmark _ _ _ rfl

/-- The same path is read, or there is the same error. -/
theorem readPath_redactedAll (close : Span) (ts : List TokenTree) :
    (∃ e, readPath close ts = .error e ∧ readPath close (redactedAll ts) = .error e) ∨
      ∃ path rest rest', readPath close ts = .ok (path, rest) ∧
        readPath close (redactedAll ts) = .ok (path, rest') := by
  have hpath : (readPath close (redactedAll ts)).map (fun r => (r.1, r.2.map blank)) =
      (readPath close ts).map fun r => (r.1, r.2.map blank) := by
    rw [← readPath_blank, map_blank_redactedAll, readPath_blank]
  generalize readPath close ts = r at hpath ⊢
  generalize readPath close (redactedAll ts) = r' at hpath ⊢
  rcases r with e | ⟨path, rest⟩
  · rcases r' with e' | ⟨path', rest'⟩
    · exact .inl ⟨e, rfl, congrArg Except.error (Except.error.inj hpath)⟩
    · contradiction
  · rcases r' with e' | ⟨path', rest'⟩
    · contradiction
    · obtain rfl : path' = path := congrArg Prod.fst (Except.ok.inj hpath)
      exact .inr ⟨path', rest, rest', rfl, rfl⟩

theorem readArgument_redactedAll (close : Span) (g : Given) (ts : List TokenTree) :
    readArgument close g.redacted (redactedAll ts) =
      (readArgument close g ts).map fun r => (r.1.redacted, redactedAll r.2) := by
  unfold readArgument
  rcases readPath_redactedAll close ts with ⟨e, hleft, hright⟩ | ⟨path, rest, rest', hleft, hright⟩
  · rw [hleft, hright]
    rfl
  rw [hleft, hright]
  have hvalue : path.isSingle = true → readValue close rest' = (readValue close rest).map fun r =>
      ((if path.first.text == "token" then "" else r.1.1, r.1.2), redactedAll r.2) := by
    intro hsingle
    refine readValue_redactedAll close ?_
    rw [← eq_cons_of_isSingle hleft hsingle]
    exact eq_cons_of_isSingle hright hsingle
  show (if path.isSingle && path.first.text == "token" then _ else _ : Except ArgumentError _) =
    Except.map _ (if path.isSingle && path.first.text == "token" then _ else _)
  by_cases htoken : (path.isSingle && path.first.text == "token") = true
  · rw [if_pos htoken, if_pos htoken]
    rw [Bool.and_eq_true] at htoken
    rw [hvalue htoken.1, htoken.2]
    rcases readValue close rest with e | ⟨value, behind⟩ <;> rfl
  rw [if_neg htoken, if_neg htoken]
  by_cases henv : (path.isSingle && path.first.text == "token_env") = true
  · rw [if_pos henv, if_pos henv]
    rw [Bool.and_eq_true] at henv
    have hkey : (path.first.text == "token") = false := by
      rw [beq_iff_eq.mp henv.2]
      rfl
    rw [hvalue henv.1, hkey]
    rcases readValue close rest with e | ⟨value, behind⟩ <;> rfl
  · rw [if_neg henv, if_neg henv]
    rfl

/-- Reading arguments commutes with redacting them. -/
theorem readArguments_redactedAll (close : Span) (n : Nat) (g : Given) (ts : List TokenTree) :
    readArguments close n g.redacted (redactedAll ts) =
      (readArguments close n g ts).map Given.redacted := by
  induction n generalizing g ts with
  | zero =>
    rcases ts with _ | ⟨t, rest⟩
    · rfl
    · obtain ⟨rest', h⟩ := exists_redactedAll_cons t rest
      rw [h]
      rfl
  | succ n ih =>
    rcases ts with _ | ⟨t, rest⟩
    · rfl
    have hread := readArgument_redactedAll close g (t :: rest)
    obtain ⟨rest', hcons⟩ := exists_redactedAll_cons t rest
    rw [hcons] at hread ⊢
    rw [readArguments, readArguments, hread]
    · rcases readArgument close g (t :: rest) with e | ⟨g', _ | ⟨t', behind⟩⟩
      · rfl
      · rfl
      · by_cases hcomma : ∃ spacing s, t' = .mark ',' spacing s
        · obtain ⟨spacing, s, rfl⟩ := hcomma
          refine Eq.trans ?_ (ih g' behind)
          show (Except.ok (g'.redacted, redactedAll (.mark ',' spacing s :: behind)) >>= _) = _
          rw [redactedAll_mark]
          rfl
        · obtain ⟨behind', hbehind⟩ := exists_redactedAll_cons t' behind
          show (Except.ok (g'.redacted, redactedAll (t' :: behind)) >>= _) = _
          rw [hbehind]
          rcases t' with w | ⟨c, spacing, s⟩ | ⟨text, s⟩ | ⟨d, content, s⟩
          · rfl
          · have hc : c ≠ ',' := fun h => hcomma ⟨spacing, s, by rw [h]⟩
            simp [bind, Except.bind, Except.map, throw, throwThe, MonadExceptOf.throw, hc]
          · rfl
          · rfl
    · exact List.cons_ne_nil _ _
    · exact List.cons_ne_nil _ _

theorem unplacedAll_redactedAll (ts : List TokenTree) :
    unplacedAll (redactedAll ts) = redactedAll (unplacedAll ts) := by
  fun_induction redactedAll ts with
  | case1 => rfl
  | case2 w spacing s text s' rest ih =>
    simp only [unplacedAll_cons, unplaced_word, unplaced_mark, unplaced_literal, ih]
    rw [redactedAll]
    rfl
  | case3 t rest h ih =>
    rw [unplacedAll_cons, unplacedAll_cons, ih, redactedAll]
    intro w spacing s text s' more ht heq
    obtain ⟨v, rfl⟩ := exists_of_unplaced_eq_word ht
    obtain ⟨t₁, rest₁, rfl, ht₁, heq₁⟩ := exists_of_unplacedAll_eq_cons heq
    obtain ⟨t₂, rest₂, rfl, ht₂, -⟩ := exists_of_unplacedAll_eq_cons heq₁
    obtain ⟨_, rfl⟩ := exists_of_unplaced_eq_mark ht₁
    obtain ⟨_, rfl⟩ := exists_of_unplaced_eq_literal ht₂
    exact h _ _ _ _ _ _ rfl rfl

/-! ## What arguments choose -/

/-- The source of a token, without the token itself. -/
def redacted : TokenSource → TokenSource
  | .literal _ => .literal ""
  | .env name => .env name

theorem cases_of_redacted_eq {t t' : TokenSource} (h : t'.redacted = t.redacted) :
    (∃ token token', t = .literal token ∧ t' = .literal token') ∨
      ∃ name, t = .env name ∧ t' = .env name := by
  rcases t with token | name
  · rcases t' with token' | name'
    · exact .inl ⟨token, token', rfl, rfl⟩
    · exact nomatch h
  · rcases t' with token' | name'
    · exact nomatch h
    · exact .inr ⟨name, rfl, h⟩

theorem choose_redacted (bot : String) (a : Attribute) (g : Given) :
    choose bot a g.redacted = (choose bot a g).map redacted := by
  obtain ⟨_ | token, _ | env⟩ := g <;> rfl

/-- What redacted arguments choose is the same but for the token. -/
theorem chosen_redactedAll (bot : String) (content : List TokenTree) :
    chosen bot (redactedAll content) = (chosen bot content).map redacted := by
  have hread := readArguments_redactedAll .generated content.length {} content
  have hgiven : Given.redacted {} = {} := rfl
  rw [hgiven] at hread
  unfold chosen
  rw [length_redactedAll, hread]
  rcases readArguments .generated content.length {} content with e | g
  · rfl
  · show (choose bot _ g.redacted).mapError Fault.unplaced = _
    rw [choose_redacted]
    rcases hchoose : choose bot (.make botMarker []) g with f | token
    · simp only [hchoose]
      rfl
    · simp only [hchoose]
      rfl

end TokenSource

/-! ## Bots -/

def Arguments.redacted : Arguments → Arguments
  | .listed d content s => .listed d (TokenSource.redactedAll content) s
  | arguments => arguments

/-- An attribute without places and, if it configures a bot, without the values of tokens. -/
def Attribute.redacted (a : Attribute) : Attribute :=
  if a.isMarker botMarker then { a.unplaced with arguments := a.unplaced.arguments.redacted }
  else a.unplaced

/-- A block without places and without the values of its tokens. -/
def ImplBlock.redacted (b : ImplBlock) : ImplBlock :=
  { b.unplaced with attributes := b.attributes.map Attribute.redacted }

/-- A declaration without places and without the values of its tokens. -/
def Declaration.redacted (d : Declaration) : Declaration :=
  { d with
    name := d.name.unplaced
    selfType := d.selfType.unplaced
    attributes := d.attributes.map Attribute.redacted
    commands := d.commands.map Command.unplaced }

theorem Attribute.isMarker_redacted (a : Attribute) (name : String) :
    a.redacted.isMarker name = a.isMarker name := by
  unfold redacted
  split
  · exact a.isMarker_unplaced name
  · exact a.isMarker_unplaced name

theorem Attribute.redacted_make (args : List TokenTree) :
    (make botMarker args).redacted =
      make botMarker (TokenSource.redactedAll (unplacedAll args)) := by
  have hempty : (TokenSource.redactedAll (unplacedAll args)).isEmpty = args.isEmpty := by
    rw [TokenSource.isEmpty_redactedAll, isEmpty_unplacedAll]
  have harguments : (make botMarker args).arguments.unplaced.redacted =
      (make botMarker (TokenSource.redactedAll (unplacedAll args))).arguments := by
    unfold make
    rw [hempty]
    rcases args with _ | ⟨t, rest⟩ <;> rfl
  have hsigns : unplacedAll (make botMarker args).signs = operator ['#'] :=
    unplacedAll_operator ['#']
  have hpath : unplacedAll (make botMarker args).path = [made botMarker] :=
    unplacedAll_words [botMarker]
  unfold redacted
  rw [isMarker_make, if_pos rfl]
  unfold unplaced
  rw [harguments, hsigns, hpath]
  rfl

namespace TokenSource

theorem mapError_configured_redacted (bot : String) {a : Attribute}
    (ha : a.isMarker botMarker = true) :
    (configured bot a.redacted).mapError Fault.unplaced =
      ((configured bot a).map redacted).mapError Fault.unplaced := by
  have hswap : ∀ r : Except Fault TokenSource, (r.map redacted).mapError Fault.unplaced =
      (r.mapError Fault.unplaced).map redacted := by
    rintro (f | token) <;> rfl
  have hredacted : a.redacted.arguments = a.arguments.unplaced.redacted := by
    unfold Attribute.redacted
    rw [ha, if_pos rfl]
    rfl
  rw [hswap]
  rcases harguments : a.arguments with _ | ⟨d, content, s⟩ | ⟨sign, value⟩
  · rw [harguments] at hredacted
    rw [mapError_configured_absent bot a harguments,
      mapError_configured_absent bot a.redacted hredacted]
    exact chosen_redactedAll bot []
  · rw [harguments] at hredacted
    rw [mapError_configured_listed bot a d content s harguments,
      mapError_configured_listed bot a.redacted d _ _ hredacted, unplacedAll_redactedAll,
      unplacedAll_unplacedAll]
    exact chosen_redactedAll bot _
  · rw [harguments] at hredacted
    simp only [configured, given, harguments, hredacted, Arguments.unplaced, Arguments.redacted]
    rfl

theorem mapError_ofDeclaration_redacted (d : Declaration) :
    (ofDeclaration d.redacted).mapError Fault.unplaced =
      ((ofDeclaration d).map redacted).mapError Fault.unplaced := by
  have hattribute : attribute? d.redacted = (attribute? d).map Attribute.redacted := by
    show (d.attributes.map Attribute.redacted).find? _ = _
    rw [List.find?_map]
    have hmarker : (fun a => Attribute.isMarker a botMarker) ∘ Attribute.redacted =
        fun a => Attribute.isMarker a botMarker :=
      funext fun a => a.isMarker_redacted botMarker
    rw [hmarker]
    rfl
  unfold ofDeclaration
  rw [hattribute]
  rcases ha : attribute? d with _ | a
  · rfl
  · have hmarker := List.find?_some (p := fun a => Attribute.isMarker a botMarker) ha
    exact mapError_configured_redacted d.name.text hmarker

end TokenSource

namespace Declaration

theorem mirrors_ofBlock (b : ImplBlock) (n : String) (o : Option String) :
    Mirrors redacted (ofBlock b n o) (ofBlock b.redacted n o) := by
  have hname := nameOf_unplaced b.selfType
  have hcommands : commandsOf b.redacted = (commandsOf b).map Command.unplaced :=
    commandsOf_unplaced b
  unfold ofBlock
  rw [show b.redacted.selfType = b.selfType.unplaced from rfl, hcommands]
  rcases Fault.cases_of_mapError_eq hname with ⟨f, f', hf, hf', hplace⟩ | ⟨name, hn, hn'⟩
  · rw [hf, hf']
    exact .error hplace []
  · have hgenerics : b.redacted.generics.isEmpty = b.generics.isEmpty :=
      isEmpty_unplacedAll b.generics
    rw [hn, hn']
    dsimp only
    rw [hgenerics]
    split
    · refine ⟨?_, rfl⟩
      simp only [resolvedEvent, Logged.outputs_bind, Logged.outputs_log, List.length_map]
      rfl
    · exact ⟨rfl, rfl⟩

theorem ofAttribute_eq_andThen (args : List TokenTree) {b : ImplBlock}
    (hb : b.implemented = none) :
    ofAttribute args b = (ofBlock b "" none).andThen fun d =>
      pure (.ok (d.withAttribute (.make botMarker args))) := by
  rw [ofAttribute, hb]
  refine congrArg (ofBlock b "" none >>= ·) (funext fun r => ?_)
  rcases r with f | d <;> rfl

theorem mirrors_ofAttribute (args : List TokenTree) (b : ImplBlock) :
    Mirrors redacted (ofAttribute args b)
      (ofAttribute (TokenSource.redactedAll (unplacedAll args)) b.redacted) := by
  rcases himplemented : b.implemented with _ | ⟨polarity, path, forWord⟩
  · have hnone : b.redacted.implemented = none := by
      show b.implemented.map _ = none
      rw [himplemented]
      rfl
    rw [ofAttribute_eq_andThen _ himplemented, ofAttribute_eq_andThen _ hnone]
    refine (mirrors_ofBlock b "" none).andThen fun d => ?_
    rw [← Attribute.redacted_make]
    exact .ok (d.withAttribute (.make botMarker args)) []
  · have hsome : b.redacted.implemented =
        some (unplacedAll polarity, path.unplaced, unplacedAll forWord) := by
      show b.implemented.map _ = _
      rw [himplemented]
      rfl
    unfold ofAttribute
    rw [himplemented, hsome]
    refine .error ?_ []
    show Fault.malformed b.selfType.unplaced.display _ _ = Fault.malformed b.selfType.display _ _
    rw [b.selfType.display_unplaced]

end Declaration

/-- Where a bot is declared: by a block of a file, or by an attribute with its arguments on a
block. -/
inductive BotSource where
  | block (b : ImplBlock) (namespace_ : String) (origin : Option String)
  | invocation (args : List TokenTree) (b : ImplBlock)

namespace BotSource

/-- The source without places and without the values of its tokens. -/
def redacted : BotSource → BotSource
  | .block b n o => .block b.redacted n o
  | .invocation args b => .invocation (TokenSource.redactedAll (unplacedAll args)) b.redacted

/-- The declaration of the bot. -/
def resolve : BotSource → Logged (Except Fault Declaration)
  | .block b n o => Declaration.ofBlock b n o
  | .invocation args b => Declaration.ofAttribute args b

/-- The dispatcher of the bot. -/
def generate (s : BotSource) : Logged (Except Fault Dispatcher) :=
  s.resolve.andThen Dispatcher.ofDeclaration

theorem mirrors_resolve (s : BotSource) :
    Mirrors Declaration.redacted s.resolve s.redacted.resolve := by
  rcases s with ⟨b, n, o⟩ | ⟨args, b⟩
  · exact Declaration.mirrors_ofBlock b n o
  · exact Declaration.mirrors_ofAttribute args b

end BotSource

/-- A dispatcher without places and without its token. -/
def Dispatcher.redacted (u : Dispatcher) : Dispatcher := u.withToken TokenSource.redacted

theorem Declaration.differsInAttributes_redacted (d : Declaration) :
    d.DiffersInAttributes d.redacted :=
  ⟨rfl, rfl, rfl, rfl, rfl⟩

/-- A redacted bot is generated as the bot itself. -/
theorem Dispatcher.mirrors_ofDeclaration_redacted (d : Declaration) :
    Mirrors redacted (ofDeclaration d) (ofDeclaration d.redacted) :=
  mirrors_ofDeclaration d.differsInAttributes_redacted
    (TokenSource.mapError_ofDeclaration_redacted d)

theorem BotSource.mirrors_generate (s : BotSource) :
    Mirrors Dispatcher.redacted s.generate s.redacted.generate :=
  s.mirrors_resolve.andThen Dispatcher.mirrors_ofDeclaration_redacted

end CommandBot
