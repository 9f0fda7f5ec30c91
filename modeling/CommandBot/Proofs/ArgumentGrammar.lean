import CommandBot.Bot.TokenSource

/-
  The grammar of a bot's arguments, and what is read off it. `Lists` are the lists in it: keys with
  string literals, commas between them and perhaps one at the end. Everything else has a first
  offence (`FirstOffence`): after arguments that are in order, a key that is none of the two, or a
  token that cannot go on what stands before it (`Begins`, `Expected.Meets`). Every list of tokens is
  one or the other (`lists_or_firstOffence`), and reading tells which: `readArguments_of_lists` and
  `readArguments_of_firstOffence`.
-/

namespace CommandBot.TokenSource

/-! ## Lists of arguments -/

/-- A key among the arguments of a bot's attribute. -/
inductive ArgumentKey where
  | token
  | env
deriving DecidableEq

namespace ArgumentKey

def text : ArgumentKey → String
  | .token => "token"
  | .env => "token_env"

/-- The source that a value for the key gives. -/
def source : ArgumentKey → String → TokenSource
  | .token => .literal
  | .env => .env

end ArgumentKey

/-- An argument: its key, and the text that its literal denotes, with the literal's place. -/
structure Argument where
  key : ArgumentKey
  value : String
  place : Span

/-- An argument is written as its key, `=` and a literal for a text. -/
inductive Argument.Written : Argument → List TokenTree → Prop
  | intro (key : ArgumentKey) (s : Span) (spacing : Spacing) (s' : Span) {text : String}
    {value : List Char} (place : Span) (h : Literal.textValue? text.toList = some value) :
    Argument.Written ⟨key, String.ofList value, place⟩
      [.word ⟨key.text, s⟩, .mark '=' spacing s', .literal text place]

/-- Arguments with commas between them, and perhaps a comma behind the last one. -/
inductive Lists : List TokenTree → List Argument → Prop
  | nil : Lists [] []
  | last {ts : List TokenTree} {a : Argument} (h : a.Written ts) : Lists ts [a]
  | cons {ts rest : List TokenTree} {a : Argument} {as : List Argument} (spacing : Spacing)
    (s : Span) (h : a.Written ts) (hrest : Lists rest as) :
    Lists (ts ++ .mark ',' spacing s :: rest) (a :: as)

/-! ## Paths -/

/-- The marks `::`, which are read as one. -/
def IsPathMark (ts : List TokenTree) : Prop :=
  ∃ s spacing s', ts = [.mark ':' .joint s, .mark ':' spacing s']

def BeginsWithPathMark (ts : List TokenTree) : Prop := ∃ m rest, IsPathMark m ∧ ts = m ++ rest

def BeginsWithWord (ts : List TokenTree) : Prop := ∃ w rest, ts = .word w :: rest

/-- The further words of a path, each behind `::`. -/
inductive PathTail : List TokenTree → List Word → Prop
  | nil : PathTail [] []
  | cons {m ts : List TokenTree} {w : Word} {ws : List Word} (hm : IsPathMark m)
    (h : PathTail ts ws) : PathTail (m ++ .word w :: ts) (w :: ws)

/-- Some tokens are a path; it is single if it is one word and nothing else. -/
inductive PathWritten : List TokenTree → ArgumentPath → Prop
  | plain {ts : List TokenTree} {w : Word} {ws : List Word} (h : PathTail ts ws) :
    PathWritten (.word w :: ts) ⟨w, ws.getLast?.getD w, ws.isEmpty⟩
  | rooted {m ts : List TokenTree} {w : Word} {ws : List Word} (hm : IsPathMark m)
    (h : PathTail ts ws) : PathWritten (m ++ .word w :: ts) ⟨w, ws.getLast?.getD w, false⟩

/-- The path is one of the keys. -/
def ArgumentPath.IsKey (p : ArgumentPath) : Prop :=
  p.isSingle = true ∧ ∃ key : ArgumentKey, p.first.text = key.text

/-! ## Offences -/

/-- What has to come next. -/
inductive Expected where
  /-- an argument, or the end -/
  | argument
  /-- the first word of a path, behind `::` -/
  | firstWord
  /-- a further word of a path, behind `::` -/
  | furtherWord
  /-- the sign `=` behind a key, or the rest of a longer path -/
  | sign
  /-- a literal for a text -/
  | text
  /-- a comma, or the end -/
  | comma

namespace Expected

/-- Some tokens begin with what is expected. -/
inductive Meets : Expected → List TokenTree → Prop
  | nothing : Meets .argument []
  | path {ts : List TokenTree} (h : BeginsWithWord ts ∨ BeginsWithPathMark ts) : Meets .argument ts
  | firstWord {ts : List TokenTree} (h : BeginsWithWord ts) : Meets .firstWord ts
  | furtherWord {ts : List TokenTree} (h : BeginsWithWord ts) : Meets .furtherWord ts
  | sign (spacing : Spacing) (s : Span) (rest : List TokenTree) :
    Meets .sign (.mark '=' spacing s :: rest)
  | longer {ts : List TokenTree} (h : BeginsWithPathMark ts) : Meets .sign ts
  | text {text : String} {value : List Char} (s : Span) (rest : List TokenTree)
    (h : Literal.textValue? text.toList = some value) : Meets .text (.literal text s :: rest)
  | last : Meets .comma []
  | comma (spacing : Spacing) (s : Span) (rest : List TokenTree) :
    Meets .comma (.mark ',' spacing s :: rest)

/-- What is wrong with tokens that do not begin with what is expected. -/
def fault (ts : List TokenTree) : Expected → ArgumentFault
  | .argument | .firstWord =>
    if ts.isEmpty then .noArgument else if Grammar.literalAhead ts then .literal else .token
  | .furtherWord => .noWord ts.isEmpty
  | .sign => .noSign
  | .text => .noText ts.isEmpty
  | .comma => .noComma

end Expected

/-- Some tokens are the beginning of an argument, and this has to come next. -/
inductive Begins : List TokenTree → Expected → Prop
  | start : Begins [] .argument
  | root {m : List TokenTree} (hm : IsPathMark m) : Begins m .firstWord
  | path {ts m : List TokenTree} {p : ArgumentPath} (h : PathWritten ts p) (hm : IsPathMark m) :
    Begins (ts ++ m) .furtherWord
  | key (key : ArgumentKey) (s : Span) : Begins [.word ⟨key.text, s⟩] .sign
  | sign (key : ArgumentKey) (s : Span) (spacing : Spacing) (s' : Span) :
    Begins [.word ⟨key.text, s⟩, .mark '=' spacing s'] .text
  | argument {ts : List TokenTree} {a : Argument} (h : a.Written ts) : Begins ts .comma

/-- The first of some arguments is not in order: the token where what is expected should be, or the
end, or else the path that is no key. -/
inductive Offends (close : Span) : List TokenTree → ArgumentFault → Span → Prop
  | token {before rest : List TokenTree} {e : Expected} (h : Begins before e)
    (hnot : ¬ e.Meets rest) : Offends close (before ++ rest) (e.fault rest) (placeOf close rest)
  | key {ts rest : List TokenTree} {p : ArgumentPath} (h : PathWritten ts p)
    (hend : ¬ BeginsWithPathMark rest) (hkey : ¬ p.IsKey) :
    Offends close (ts ++ rest) .unknown (p.first.span.join p.last.span)

/-- The first argument that is not in order comes behind some that are. -/
inductive FirstOffence (close : Span) : List TokenTree → ArgumentFault → Span → Prop
  | here {ts : List TokenTree} {fault : ArgumentFault} {place : Span}
    (h : Offends close ts fault place) : FirstOffence close ts fault place
  | later {ts rest : List TokenTree} {a : Argument} {fault : ArgumentFault} {place : Span}
    (spacing : Spacing) (s : Span) (h : a.Written ts) (hrest : FirstOffence close rest fault place) :
    FirstOffence close (ts ++ .mark ',' spacing s :: rest) fault place

/-! ## One or the other -/

variable {close : Span}

/-- Behind a word comes the tail of a path, up to something else or up to a `::` without a word. -/
theorem exists_pathTail (ts : List TokenTree) :
    ∃ us ws rest, PathTail us ws ∧ ts = us ++ rest ∧
      (¬ BeginsWithPathMark rest ∨
        ∃ m behind, IsPathMark m ∧ rest = m ++ behind ∧ ¬ BeginsWithWord behind) := by
  by_cases hmark : BeginsWithPathMark ts
  · obtain ⟨m, behind, hm, hts⟩ := hmark
    by_cases hword : BeginsWithWord behind
    · obtain ⟨w, behind, rfl⟩ := hword
      have hshorter : behind.length < ts.length := by
        rw [hts, List.length_append, List.length_cons]
        omega
      obtain ⟨us, ws, rest, htail, rfl, hrest⟩ := exists_pathTail behind
      exact ⟨m ++ .word w :: us, w :: ws, rest, .cons hm htail, by simp [hts], hrest⟩
    · exact ⟨[], [], ts, .nil, rfl, .inr ⟨m, behind, hm, hts, hword⟩⟩
  · exact ⟨[], [], ts, .nil, rfl, .inl hmark⟩
termination_by ts.length

theorem eq_nil_of_pathTail_nil {ts : List TokenTree} (h : PathTail ts []) : ts = [] := by
  cases h
  rfl

/-- What follows a key is in order, or else it offends. -/
theorem written_or_offends_of_key (key : ArgumentKey) (s : Span) {rest : List TokenTree}
    (hend : ¬ BeginsWithPathMark rest) :
    (∃ a us behind, Argument.Written a us ∧ .word ⟨key.text, s⟩ :: rest = us ++ behind) ∨
      ∃ fault place, Offends close (.word ⟨key.text, s⟩ :: rest) fault place := by
  by_cases hsign : Expected.sign.Meets rest
  · cases hsign with
    | sign spacing s' behind =>
      by_cases htext : Expected.text.Meets behind
      · cases htext with
        | text place behind hvalue =>
          exact .inl ⟨_, _, behind, .intro key s spacing s' place hvalue, rfl⟩
      · exact .inr ⟨_, _, .token (.sign key s spacing s') htext⟩
    | longer hlonger => exact absurd hlonger hend
  · exact .inr ⟨_, _, .token (.key key s) hsign⟩

/-- What begins with a word, perhaps behind `::`, is an argument in order up to its literal, or else
it offends. -/
theorem written_or_offends_of_path {before : List TokenTree} {p : Word → List Word → ArgumentPath}
    (hpath : ∀ {us ws} w, PathTail us ws → PathWritten (before ++ .word w :: us) (p w ws))
    (hkey : ∀ w ws, (p w ws).IsKey → before = [] ∧ ws = [] ∧ ∃ key : ArgumentKey, w.text = key.text)
    (w : Word) (ts : List TokenTree) :
    (∃ a us behind, Argument.Written a us ∧ before ++ .word w :: ts = us ++ behind) ∨
      ∃ fault place, Offends close (before ++ .word w :: ts) fault place := by
  obtain ⟨us, ws, rest, htail, rfl, hend | ⟨m, behind, hm, rfl, hword⟩⟩ := exists_pathTail ts
  · by_cases his : (p w ws).IsKey
    · obtain ⟨rfl, rfl, key, htext⟩ := hkey w ws his
      obtain rfl := eq_nil_of_pathTail_nil htail
      obtain ⟨text, s⟩ := w
      obtain rfl : text = key.text := htext
      exact written_or_offends_of_key key s hend
    · have hoffends : Offends close _ _ _ := .key (hpath w htail) hend his
      rw [List.append_assoc, List.cons_append] at hoffends
      exact .inr ⟨_, _, hoffends⟩
  · have hnot : ¬ Expected.furtherWord.Meets behind := fun | .furtherWord h => hword h
    have hoffends : Offends close _ _ _ := .token (.path (hpath w htail) hm) hnot
    rw [List.append_assoc, List.append_assoc, List.cons_append] at hoffends
    exact .inr ⟨_, _, hoffends⟩

/-- Some tokens begin with an argument in order, or else they offend. -/
theorem written_or_offends (close : Span) {ts : List TokenTree} (hts : ts ≠ []) :
    (∃ a us rest, Argument.Written a us ∧ ts = us ++ rest) ∨
      ∃ fault place, Offends close ts fault place := by
  by_cases hword : BeginsWithWord ts
  · obtain ⟨w, ts, rfl⟩ := hword
    refine @written_or_offends_of_path close [] _ (fun w h => .plain h) ?_ w ts
    rintro w ws ⟨hsingle, hkey⟩
    exact ⟨rfl, List.isEmpty_iff.mp hsingle, hkey⟩
  · by_cases hmark : BeginsWithPathMark ts
    · obtain ⟨m, ts, hm, rfl⟩ := hmark
      by_cases hfirst : BeginsWithWord ts
      · obtain ⟨w, ts, rfl⟩ := hfirst
        refine written_or_offends_of_path (fun w h => .rooted hm h) ?_ w ts
        rintro w ws ⟨hsingle, -⟩
        exact nomatch hsingle
      · exact .inr ⟨_, _, .token (.root hm) fun | .firstWord h => hfirst h⟩
    · refine .inr ⟨_, _, .token .start fun h => ?_⟩
      cases h with
      | nothing => exact hts rfl
      | path h => exact h.elim hword hmark

/-- Tokens are a list of arguments, or something in them is the first offence. -/
theorem lists_or_firstOffence (close : Span) (ts : List TokenTree) :
    (∃ as, Lists ts as) ∨ ∃ fault place, FirstOffence close ts fault place := by
  by_cases hts : ts = []
  · exact .inl ⟨[], hts ▸ .nil⟩
  · rcases written_or_offends close hts with
      ⟨a, us, rest, ha, heq⟩ | ⟨fault, place, hoffends⟩
    · by_cases hcomma : Expected.comma.Meets rest
      · cases hcomma with
        | last =>
          rw [heq, List.append_nil]
          exact .inl ⟨[a], .last ha⟩
        | comma spacing s rest =>
          have hshorter : rest.length < ts.length := by
            rw [heq, List.length_append, List.length_cons]
            omega
          rw [heq]
          rcases lists_or_firstOffence close rest with ⟨as, has⟩ | ⟨fault, place, hrest⟩
          · exact .inl ⟨a :: as, .cons spacing s ha has⟩
          · exact .inr ⟨fault, place, .later spacing s ha hrest⟩
      · rw [heq]
        exact .inr ⟨_, _, .here (.token (.argument ha) hcomma)⟩
    · exact .inr ⟨fault, place, .here hoffends⟩
termination_by ts.length

/-! ## Reading a path -/

theorem not_beginsWithWord {ts : List TokenTree} (h : ¬ BeginsWithWord ts) (w : Word)
    (rest : List TokenTree) : ts ≠ .word w :: rest := fun heq => h ⟨w, rest, heq⟩

theorem not_beginsWithPathMark {ts : List TokenTree} (h : ¬ BeginsWithPathMark ts) (s : Span)
    (spacing : Spacing) (s' : Span) (rest : List TokenTree) :
    ts ≠ .mark ':' .joint s :: .mark ':' spacing s' :: rest := fun heq =>
  h ⟨[.mark ':' .joint s, .mark ':' spacing s'], rest, ⟨s, spacing, s', rfl⟩, heq⟩

theorem readPathTail_append {us rest : List TokenTree} {ws : List Word} (h : PathTail us ws)
    (hend : ¬ BeginsWithPathMark rest) (last : Word) :
    readPathTail close last (us ++ rest) = .ok (ws.getLast?.getD last, rest) := by
  induction h generalizing last with
  | nil =>
    rw [List.nil_append, readPathTail]
    · rfl
    · exact fun s spacing s' w behind => not_beginsWithPathMark hend s spacing s' (.word w :: behind)
    · exact not_beginsWithPathMark hend
  | @cons m us w ws hm _ ih =>
    obtain ⟨s, spacing, s', rfl⟩ := hm
    show readPathTail close last
      (.mark ':' .joint s :: .mark ':' spacing s' :: .word w :: (us ++ rest)) = _
    rw [readPathTail, ih, List.getLast?_cons, Option.getD_some]

/-- A path that breaks off behind `::`. -/
theorem readPathTail_of_broken {us m rest : List TokenTree} {ws : List Word} (h : PathTail us ws)
    (hm : IsPathMark m) (hword : ¬ BeginsWithWord rest) (last : Word) :
    readPathTail close last (us ++ (m ++ rest)) =
      .error (.noWord rest.isEmpty, placeOf close rest) := by
  induction h generalizing last with
  | nil =>
    obtain ⟨s, spacing, s', rfl⟩ := hm
    show readPathTail close last (.mark ':' .joint s :: .mark ':' spacing s' :: rest) = _
    rw [readPathTail]
    exact not_beginsWithWord hword
  | @cons m' us w ws hm' _ ih =>
    obtain ⟨s, spacing, s', rfl⟩ := hm'
    show readPathTail close last
      (.mark ':' .joint s :: .mark ':' spacing s' :: .word w :: (us ++ (m ++ rest))) = _
    rw [readPathTail, ih]

theorem length_eq_iff_of_pathTail {us : List TokenTree} {ws : List Word} (h : PathTail us ws)
    (rest : List TokenTree) : (rest.length == (us ++ rest).length) = ws.isEmpty := by
  obtain _ | ⟨hm, h⟩ := h
  · exact beq_self_eq_true _
  · rw [List.isEmpty_cons, beq_eq_false_iff_ne]
    simp only [List.length_append, List.length_cons]
    omega

theorem readPathFrom_append {us rest : List TokenTree} {ws : List Word} (h : PathTail us ws)
    (hend : ¬ BeginsWithPathMark rest) (isRooted : Bool) (w : Word) :
    readPathFrom close isRooted (.word w :: (us ++ rest)) =
      .ok (⟨w, ws.getLast?.getD w, !isRooted && ws.isEmpty⟩, rest) := by
  rw [readPathFrom, readPathTail_append h hend, ← length_eq_iff_of_pathTail h rest]
  rfl

theorem readPathFrom_of_broken {us m rest : List TokenTree} {ws : List Word} (h : PathTail us ws)
    (hm : IsPathMark m) (hword : ¬ BeginsWithWord rest) (isRooted : Bool) (w : Word) :
    readPathFrom close isRooted (.word w :: (us ++ (m ++ rest))) =
      .error (.noWord rest.isEmpty, placeOf close rest) := by
  rw [readPathFrom, readPathTail_of_broken h hm hword]
  rfl

/-- A path begins with a word. -/
theorem readPathFrom_of_no_word {ts : List TokenTree} (h : ¬ BeginsWithWord ts) (isRooted : Bool) :
    readPathFrom close isRooted ts = .error (Expected.firstWord.fault ts, placeOf close ts) := by
  rcases ts with _ | ⟨t, rest⟩
  · rfl
  · rw [readPathFrom]
    · rfl
    · exact not_beginsWithWord h
    · exact List.cons_ne_nil t rest

theorem readPath_plain {ts : List TokenTree} (h : ¬ BeginsWithPathMark ts) :
    readPath close ts = readPathFrom close false ts := by
  rw [readPath]
  exact not_beginsWithPathMark h

theorem readPath_rooted {m : List TokenTree} (hm : IsPathMark m) (ts : List TokenTree) :
    readPath close (m ++ ts) = readPathFrom close true ts := by
  obtain ⟨s, spacing, s', rfl⟩ := hm
  rfl

theorem not_beginsWithPathMark_word (w : Word) (rest : List TokenTree) :
    ¬ BeginsWithPathMark (.word w :: rest) := by
  rintro ⟨m, behind, ⟨s, spacing, s', rfl⟩, heq⟩
  exact nomatch heq

theorem readPath_append {ts rest : List TokenTree} {p : ArgumentPath} (h : PathWritten ts p)
    (hend : ¬ BeginsWithPathMark rest) : readPath close (ts ++ rest) = .ok (p, rest) := by
  obtain ⟨htail⟩ | ⟨hm, htail⟩ := h
  · rw [List.cons_append, readPath_plain (not_beginsWithPathMark_word _ _),
      readPathFrom_append htail hend]
    rfl
  · rw [List.append_assoc, List.cons_append, readPath_rooted hm, readPathFrom_append htail hend]
    rfl

theorem readPath_of_broken {ts m rest : List TokenTree} {p : ArgumentPath} (h : PathWritten ts p)
    (hm : IsPathMark m) (hword : ¬ BeginsWithWord rest) :
    readPath close (ts ++ m ++ rest) = .error (.noWord rest.isEmpty, placeOf close rest) := by
  obtain ⟨htail⟩ | ⟨hm', htail⟩ := h
  · rw [List.append_assoc, List.cons_append, readPath_plain (not_beginsWithPathMark_word _ _),
      readPathFrom_of_broken htail hm hword]
  · rw [List.append_assoc, List.append_assoc, List.cons_append, readPath_rooted hm',
      readPathFrom_of_broken htail hm hword]

/-! ## Reading an argument -/

/-- What is given with one more argument, which replaces an earlier one for its key. -/
def Given.add (g : Given) (a : Argument) : Given :=
  match a.key with
  | .token => { g with token := some (a.value, a.place) }
  | .env => { g with env := some (a.value, a.place) }

variable {g : Given} {ts rest : List TokenTree} {p : ArgumentPath}

theorem readArgument_of_error {e : ArgumentError} (h : readPath close ts = .error e) :
    readArgument close g ts = .error e := by
  rw [readArgument, h]
  rfl

theorem readArgument_of_key (h : readPath close ts = .ok (p, rest)) (hsingle : p.isSingle = true)
    {key : ArgumentKey} (hkey : p.first.text = key.text) :
    readArgument close g ts =
      (readValue close rest).map fun r => (g.add ⟨key, r.1.1, r.1.2⟩, r.2) := by
  rw [readArgument, h]
  simp only [bind, Except.bind, hsingle, hkey]
  cases key <;> rcases readValue close rest with e | r <;> rfl

theorem readArgument_of_no_key (h : readPath close ts = .ok (p, rest)) (hkey : ¬ p.IsKey) :
    readArgument close g ts = .error (.unknown, p.first.span.join p.last.span) := by
  have hnot : ∀ key : ArgumentKey, (p.isSingle && p.first.text == key.text) = false := by
    intro key
    rw [Bool.eq_false_iff, ne_eq, Bool.and_eq_true, beq_iff_eq]
    exact fun ⟨hsingle, htext⟩ => hkey ⟨hsingle, key, htext⟩
  have htoken : (p.isSingle && p.first.text == "token") = false := hnot .token
  have henv : (p.isSingle && p.first.text == "token_env") = false := hnot .env
  rw [readArgument, h]
  simp only [bind, Except.bind, htoken, henv]
  rfl

theorem pathWritten_key (key : ArgumentKey) (s : Span) :
    PathWritten [.word ⟨key.text, s⟩] ⟨⟨key.text, s⟩, ⟨key.text, s⟩, true⟩ := .plain .nil

theorem not_beginsWithPathMark_sign (spacing : Spacing) (s : Span) (rest : List TokenTree) :
    ¬ BeginsWithPathMark (.mark '=' spacing s :: rest) := by
  rintro ⟨m, behind, ⟨s, spacing, s', rfl⟩, heq⟩
  cases heq

theorem readArgument_append {a : Argument} {us : List TokenTree} (h : a.Written us)
    (rest : List TokenTree) : readArgument close g (us ++ rest) = .ok (g.add a, rest) := by
  obtain @⟨key, s, spacing, s', text, value, place, hvalue⟩ := h
  have hpath : readPath close _ = _ := readPath_append (pathWritten_key key s)
    (not_beginsWithPathMark_sign spacing s' (.literal text place :: rest))
  refine (readArgument_of_key hpath rfl rfl).trans ?_
  rw [readValue]
  simp only [hvalue]
  rfl

theorem readValue_of_no_sign (h : ¬ Expected.sign.Meets rest) :
    readValue close rest = .error (.noSign, placeOf close rest) := by
  rw [readValue]
  rintro spacing s behind rfl
  exact h (.sign spacing s behind)

theorem readValue_of_no_text (h : ¬ Expected.text.Meets rest) (spacing : Spacing) (s : Span) :
    readValue close (.mark '=' spacing s :: rest) =
      .error (.noText rest.isEmpty, placeOf close rest) := by
  rcases rest with _ | ⟨w | ⟨c, spacing', s'⟩ | ⟨text, s'⟩ | ⟨d, content, s'⟩, behind⟩
  · rfl
  · rfl
  · rfl
  · rcases hvalue : Literal.textValue? text.toList with _ | value
    · simp only [readValue, hvalue]
      rfl
    · exact absurd (.text s' behind hvalue) h
  · rfl

/-- Reading stops at an offence. -/
theorem readArgument_of_begins {before : List TokenTree} {e : Expected} (h : Begins before e)
    (hnot : ¬ e.Meets rest) (hcomma : e ≠ .comma) :
    readArgument close g (before ++ rest) = .error (e.fault rest, placeOf close rest) := by
  cases h with
  | start =>
    have hmark : ¬ BeginsWithPathMark rest := fun h => hnot (.path (.inr h))
    have hword : ¬ BeginsWithWord rest := fun h => hnot (.path (.inl h))
    refine readArgument_of_error ((readPath_plain hmark).trans ?_)
    exact readPathFrom_of_no_word hword false
  | root hm =>
    refine readArgument_of_error ((readPath_rooted hm rest).trans ?_)
    exact readPathFrom_of_no_word (fun h => hnot (.firstWord h)) true
  | path h hm =>
    exact readArgument_of_error (readPath_of_broken h hm fun h => hnot (.furtherWord h))
  | key key s =>
    have hpath : readPath close _ = _ := readPath_append (pathWritten_key key s)
      (fun h => hnot (.longer h))
    rw [readArgument_of_key hpath rfl rfl, readValue_of_no_sign hnot]
    rfl
  | sign key s spacing s' =>
    have hpath : readPath close _ = _ := readPath_append (pathWritten_key key s)
      (not_beginsWithPathMark_sign spacing s' rest)
    refine (readArgument_of_key hpath rfl rfl).trans ?_
    rw [readValue_of_no_text hnot]
    rfl
  | argument => exact absurd rfl hcomma

/-! ## Reading all arguments -/

theorem eq_argument_of_begins_nil {e : Expected} (h : Begins [] e) : e = .argument := by
  generalize hts : ([] : List TokenTree) = ts at h
  cases h with
  | start => rfl
  | root hm =>
    obtain ⟨s, spacing, s', rfl⟩ := hm
    exact nomatch hts
  | path h hm =>
    obtain ⟨s, spacing, s', rfl⟩ := hm
    exact absurd hts.symm (List.append_ne_nil_of_right_ne_nil _ (List.cons_ne_nil _ _))
  | key key s => exact nomatch hts
  | sign key s spacing s' => exact nomatch hts
  | argument h =>
    obtain ⟨⟩ := h
    exact nomatch hts

theorem ne_nil_of_written {a : Argument} {us : List TokenTree} (h : a.Written us)
    (rest : List TokenTree) : us ++ rest ≠ [] := by
  obtain ⟨key, s, spacing, s', place, hvalue⟩ := h
  exact List.cons_ne_nil _ _

theorem readArguments_of_ne_nil (h : ts ≠ []) (n : Nat) :
    readArguments close (n + 1) g ts = (readArgument close g ts).bind fun r =>
      match r.2 with
      | [] => .ok r.1
      | .mark ',' _ _ :: rest => readArguments close n r.1 rest
      | t :: _ => .error (.noComma, t.headSpan) := by
  rw [readArguments]
  · rfl
  · exact h

/-- An argument in order and the comma behind it are read, and then the others. -/
theorem readArguments_cons {a : Argument} {us : List TokenTree} (h : a.Written us)
    (spacing : Spacing) (s : Span) (n : Nat) :
    readArguments close (n + 1) g (us ++ .mark ',' spacing s :: rest) =
      readArguments close n (g.add a) rest := by
  rw [readArguments_of_ne_nil (ne_nil_of_written h _), readArgument_append h]
  rfl

theorem exists_length_eq_succ {n : Nat} (hn : ts.length ≤ n) (h : ts ≠ []) : ∃ m, n = m + 1 :=
  Nat.exists_eq_succ_of_ne_zero fun h0 =>
    h (List.eq_nil_of_length_eq_zero (Nat.le_zero.mp (h0 ▸ hn)))

theorem length_le_of_append {us : List TokenTree} {t : TokenTree} {n : Nat}
    (hn : (us ++ t :: rest).length ≤ n + 1) : rest.length ≤ n := by
  rw [List.length_append, List.length_cons] at hn
  omega

/-- A list of arguments gives what its arguments give one after the other. -/
theorem readArguments_of_lists {as : List Argument} (h : Lists ts as) {n : Nat}
    (hn : ts.length ≤ n) (g : Given) : readArguments close n g ts = .ok (as.foldl Given.add g) := by
  induction h generalizing n g with
  | nil => rw [readArguments]; rfl
  | last ha =>
    have hne := ne_nil_of_written ha []
    rw [List.append_nil] at hne
    obtain ⟨m, rfl⟩ := exists_length_eq_succ hn hne
    have hread : readArgument close g _ = _ := readArgument_append ha []
    rw [List.append_nil] at hread
    rw [readArguments_of_ne_nil hne, hread]
    rfl
  | cons spacing s ha _ ih =>
    obtain ⟨m, rfl⟩ := exists_length_eq_succ hn (ne_nil_of_written ha _)
    rw [readArguments_cons ha, ih (length_le_of_append hn)]
    rfl

theorem ne_nil_of_offends {fault : ArgumentFault} {place : Span} (h : Offends close ts fault place) :
    ts ≠ [] := by
  cases h with
  | token hbegins hnot =>
    intro heq
    obtain ⟨rfl, rfl⟩ := List.append_eq_nil_iff.mp heq
    obtain rfl := eq_argument_of_begins_nil hbegins
    exact hnot .nothing
  | key hpath hend hkey =>
    obtain ⟨htail⟩ | ⟨hm, htail⟩ := hpath
    · exact List.cons_ne_nil _ _
    · refine List.append_ne_nil_of_left_ne_nil ?_ _
      exact List.append_ne_nil_of_right_ne_nil _ (List.cons_ne_nil _ _)

theorem readArguments_of_offends {fault : ArgumentFault} {place : Span}
    (h : Offends close ts fault place) {n : Nat} (hn : ts.length ≤ n) (g : Given) :
    readArguments close n g ts = .error (fault, place) := by
  have hne : ts ≠ [] := ne_nil_of_offends h
  obtain ⟨m, rfl⟩ := exists_length_eq_succ hn hne
  rw [readArguments_of_ne_nil hne]
  cases h with
  | @token before rest e hbegins hnot =>
    by_cases hcomma : e = .comma
    · subst hcomma
      cases hbegins with
      | argument ha =>
        rw [readArgument_append ha]
        rcases rest with _ | ⟨t, behind⟩
        · exact absurd .last hnot
        · dsimp only [Except.bind]
          split
          · contradiction
          · rename_i spacing s behind' heq
            exact absurd (heq ▸ .comma spacing s behind') hnot
          · rename_i heq
            obtain ⟨rfl, rfl⟩ := List.cons.inj heq
            rfl
    · rw [readArgument_of_begins hbegins hnot hcomma]
      rfl
  | key hpath hend hkey =>
    rw [readArgument_of_no_key (readPath_append hpath hend) hkey]
    rfl

/-- The first offence is what reading stops at. -/
theorem readArguments_of_firstOffence {fault : ArgumentFault} {place : Span}
    (h : FirstOffence close ts fault place) {n : Nat} (hn : ts.length ≤ n) (g : Given) :
    readArguments close n g ts = .error (fault, place) := by
  induction h generalizing n g with
  | here h => exact readArguments_of_offends h hn g
  | later spacing s ha _ ih =>
    obtain ⟨m, rfl⟩ := exists_length_eq_succ hn (ne_nil_of_written ha _)
    rw [readArguments_cons ha, ih (length_le_of_append hn)]

end CommandBot.TokenSource
