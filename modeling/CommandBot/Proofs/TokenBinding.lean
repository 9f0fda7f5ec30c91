import CommandBot.Emission.Unit
import CommandBot.Proofs.Redaction

/-
  Where a token stands in the code of a dispatcher: a `Place` is a list of tokens with one missing,
  and the literal of a token fills the place of the value that `run_with` binds to `token`
  (`trees_eq_fill`). The text of the code is that literal with the same text before and behind it,
  whatever the literal (`exists_charsOf_fill`), so units of bots that are alike but for their tokens
  differ in that literal alone.
-/

namespace CommandBot

open TokenTree Template

/-- Some tokens with a place for one more, among them or inside a group. -/
inductive TokenPlace where
  | among (before after : List TokenTree)
  | inside (before : List TokenTree) (d : Delimiter) (place : TokenPlace) (s : Span)
    (after : List TokenTree)

namespace TokenPlace

/-- The tokens with one in the place. -/
def fill (t : TokenTree) : TokenPlace → List TokenTree
  | .among before after => before ++ t :: after
  | .inside before d place s after => before ++ .group d (place.fill t) s :: after

/-- The tokens with some in the place. -/
def fillAll (ts : List TokenTree) : TokenPlace → List TokenTree
  | .among before after => before ++ (ts ++ after)
  | .inside before d place s after => before ++ .group d (place.fillAll ts) s :: after

theorem fillAll_singleton (place : TokenPlace) (t : TokenTree) :
    place.fillAll [t] = place.fill t := by
  induction place with
  | among before after => rfl
  | inside before d place s after ih => rw [fillAll, fill, ih]

/-- The place is that of the value which a function `run_with` binds to `token`. -/
inductive BindsToken : TokenPlace → Prop
  | body (before parameters earlier later after : List TokenTree) (s : Span) :
    BindsToken
      (.inside
        (before ++ words ["fn", "run_with"] ++ parens parameters ++ arrow ++
          Dispatcher.clientResult)
        .brace (.among (earlier ++ words ["let", "token"] ++ sign '=') (sign ';' ++ later)) s after)
  | member (before : List TokenTree) (d : Delimiter) {place : TokenPlace} (h : BindsToken place)
    (s : Span) (after : List TokenTree) : BindsToken (.inside before d place s after)

theorem fill_ne_nil (place : TokenPlace) (t : TokenTree) : place.fill t ≠ [] := by
  rcases place with ⟨before, after⟩ | ⟨before, d, place, s, after⟩
  · exact List.append_ne_nil_of_right_ne_nil before (List.cons_ne_nil _ _)
  · exact List.append_ne_nil_of_right_ne_nil before (List.cons_ne_nil _ _)

/-- What stands around a token is printed the same whatever the token. -/
theorem exists_charsOf_among (before after : List TokenTree) :
    ∃ head tail, ∀ t, isJoint t = false →
      charsOf (before ++ t :: after) = head ++ chars t ++ tail := by
  induction before with
  | nil =>
    refine ⟨[], (if after.isEmpty then [] else [' ']) ++ charsOf after, fun t ht => ?_⟩
    rw [List.nil_append, charsOf, ht, Bool.or_false, List.append_assoc, List.nil_append]
  | cons b before ih =>
    obtain ⟨head, tail, h⟩ := ih
    refine ⟨chars b ++ (if isJoint b then [] else [' ']) ++ head, tail, fun t ht => ?_⟩
    have hempty : (before ++ t :: after).isEmpty = false := by
      rw [List.isEmpty_eq_false_iff]
      exact List.append_ne_nil_of_right_ne_nil before (List.cons_ne_nil _ _)
    rw [List.cons_append, charsOf, hempty, Bool.false_or, h t ht]
    simp only [List.append_assoc]

theorem exists_chars_group (d : Delimiter) :
    ∃ opening closing, ∀ content s, content ≠ [] →
      chars (.group d content s) = opening ++ charsOf content ++ closing := by
  rcases d with _ | _ | _
  · exact ⟨['('], [')'], fun content s _ => by rw [chars]; rfl⟩
  · exact ⟨['['], [']'], fun content s _ => by rw [chars]; rfl⟩
  · refine ⟨['{', ' '], [' ', '}'], fun content s h => ?_⟩
    rw [chars, List.isEmpty_eq_false_iff.mpr h]
    rfl

/-- The text of a literal in a place has the same text before and behind it, whatever the
literal. -/
theorem exists_charsOf_fill (place : TokenPlace) :
    ∃ head tail, ∀ text s,
      charsOf (place.fill (.literal text s)) = head ++ text.toList ++ tail := by
  induction place with
  | among before after =>
    obtain ⟨head, tail, h⟩ := exists_charsOf_among before after
    refine ⟨head, tail, fun text s => ?_⟩
    rw [fill, h _ rfl, chars]
  | inside before d place s' after ih =>
    obtain ⟨head, tail, h⟩ := ih
    obtain ⟨opening, closing, hgroup⟩ := exists_chars_group d
    obtain ⟨head', tail', hamong⟩ := exists_charsOf_among before after
    refine ⟨head' ++ opening ++ head, tail ++ closing ++ tail', fun text s => ?_⟩
    rw [fill, hamong _ rfl, hgroup _ _ (place.fill_ne_nil _), h]
    simp only [List.append_assoc]

end TokenPlace

namespace Dispatcher

/-- The place of the token in a dispatcher's code. -/
def tokenPlace (u : Dispatcher) : TokenPlace :=
  .inside (u.structTrees ++ words ["impl", u.name]) .brace
    (.inside
      (u.newTrees ++ u.botTrees ++ runTrees ++
          doc " Logs in through `builder` and starts dispatching commands." ++
          words ["pub", "async"] ++ words ["fn", "run_with"] ++
        parens
          (words ["self"] ++ comma ++ words ["builder"] ++ sign ':' ++ library ["ClientBuilder"] ++
            comma) ++
        arrow ++ clientResult)
      .brace
      (.among
        (library ["__private", "tracing", "info"] ++ sign '!' ++
            parens
              (words ["bot"] ++ sign '=' ++ textLiteral u.name ++ comma ++
                textLiteral "Running a bot") ++
            sign ';' ++
          words ["let", "token"] ++ sign '=')
        (sign ';' ++
          (words ["let", "this"] ++ sign '=' ++ rootPath ["std", "sync", "Arc", "new"] ++
            parens (words ["self"]) ++ sign ';' ++
            words ["builder"] ++ call "set_token" (words ["token"]) ++
            call "add_message_create_listener"
              (words ["move"] ++ sign '|' ++ words ["event"] ++ sign '|' ++ words ["this"] ++
                call "on_message" (words ["event"])) ++
            call "login" [] ++ dot ++ words ["await"])))
      .generated (u.handlers.flatMap Handler.trees ++ u.table.trees))
    .generated u.defaultTrees

theorem bindsToken_tokenPlace (u : Dispatcher) : u.tokenPlace.BindsToken :=
  .member _ _ (.body _ _ _ _ _ _) _ _

/-- The code is that around the token with the expression for the token in it. -/
theorem trees_eq_fillAll (u : Dispatcher) : u.trees = u.tokenPlace.fillAll u.tokenTrees := by
  have hwords : words ["pub", "async", "fn", "run_with"] =
      words ["pub", "async"] ++ words ["fn", "run_with"] := rfl
  simp only [trees, implTrees, runWithTrees, tokenPlace, TokenPlace.fillAll, hwords, braces,
    grouped, List.append_assoc, List.cons_append, List.nil_append]

theorem trees_eq_fill {u : Dispatcher} {token : String} (h : u.token = .literal token) :
    u.trees = u.tokenPlace.fill (.literal (Text.literal token) .generated) := by
  have htoken : u.tokenTrees = textLiteral token := by
    unfold tokenTrees
    rw [h]
  rw [trees_eq_fillAll, htoken, textLiteral, TokenPlace.fillAll_singleton]

theorem tokenPlace_redacted (u : Dispatcher) : u.redacted.tokenPlace = u.unplaced.tokenPlace := rfl

theorem trees_redacted_of_env {u : Dispatcher} {name : String} (h : u.token = .env name) :
    u.redacted.trees = u.unplaced.trees := by
  obtain ⟨n, unitName, sourceName, sourceType, token, handlers, table, origin⟩ := u
  obtain rfl : token = .env name := h
  rfl

end Dispatcher

namespace CodeUnit

/-- Units that agree up to places, but for the one literal that `run_with` binds to `token`, if it
binds one. -/
structure AgreeButToken (c c' : CodeUnit) : Prop where
  namespace_eq : c'.namespace_ = c.namespace_
  name_eq : c'.name = c.name
  code : (unplacedAll c'.trees = unplacedAll c.trees ∧ c'.render = c.render) ∨
    ∃ place : TokenPlace, place.BindsToken ∧ ∃ literal literal' before after,
      unplacedAll c.trees = place.fill (.literal literal .generated) ∧
      unplacedAll c'.trees = place.fill (.literal literal' .generated) ∧
      c.render = before ++ literal ++ after ∧ c'.render = before ++ literal' ++ after

theorem render_of_charsOf {c : CodeUnit} {cs : List Char} (h : charsOf (unplacedAll c.trees) = cs) :
    c.render = "// @generated by magicord; do not edit.\n" ++ String.ofList cs ++ "\n" := by
  rw [charsOf_unplacedAll] at h
  unfold render display
  rw [h]

/-- The text of a unit with a literal in this place, whatever the literal. -/
theorem exists_render_fill (place : TokenPlace) :
    ∃ before after, ∀ (c : CodeUnit) (literal : String),
      unplacedAll c.trees = place.fill (.literal literal .generated) →
        c.render = before ++ literal ++ after := by
  obtain ⟨head, tail, h⟩ := place.exists_charsOf_fill
  refine ⟨"// @generated by magicord; do not edit.\n" ++ String.ofList head,
    String.ofList tail ++ "\n", fun c literal hc => ?_⟩
  rw [render_of_charsOf (congrArg charsOf hc), h]
  simp only [String.ofList_append, String.ofList_toList, String.append_assoc]

theorem unplacedAll_trees_of_literal {u : Dispatcher} {token : String}
    (h : u.token = .literal token) :
    unplacedAll (ofDispatcher u).trees =
      u.redacted.tokenPlace.fill (.literal (Text.literal token) .generated) := by
  rw [Dispatcher.tokenPlace_redacted]
  exact u.unplacedAll_trees.trans (Dispatcher.trees_eq_fill h)

theorem unplacedAll_trees_of_env {u : Dispatcher} {name : String} (h : u.token = .env name) :
    unplacedAll (ofDispatcher u).trees = u.redacted.trees := by
  rw [Dispatcher.trees_redacted_of_env h]
  exact u.unplacedAll_trees

/-- Dispatchers that are alike but for their tokens have code that is. -/
theorem agreeButToken_ofDispatcher {u u' : Dispatcher} (h : u'.redacted = u.redacted) :
    AgreeButToken (ofDispatcher u) (ofDispatcher u') := by
  have hnamespace : u'.redacted.namespace_ = u.redacted.namespace_ := by rw [h]
  have hname : u'.redacted.name = u.redacted.name := by rw [h]
  refine ⟨hnamespace, hname, ?_⟩
  rcases TokenSource.cases_of_redacted_eq (congrArg Dispatcher.token h) with
    ⟨token, token', hu, hu'⟩ | ⟨name, hu, hu'⟩
  · have hcode := unplacedAll_trees_of_literal hu
    have hcode' := unplacedAll_trees_of_literal hu'
    rw [h] at hcode'
    obtain ⟨before, after, hrender⟩ := exists_render_fill u.redacted.tokenPlace
    exact .inr ⟨_, u.redacted.bindsToken_tokenPlace, _, _, before, after, hcode, hcode',
      hrender _ _ hcode, hrender _ _ hcode'⟩
  · have hcode : unplacedAll (ofDispatcher u').trees = unplacedAll (ofDispatcher u).trees := by
      rw [unplacedAll_trees_of_env hu, unplacedAll_trees_of_env hu', h]
    refine .inl ⟨hcode, ?_⟩
    rw [render_of_charsOf (congrArg charsOf hcode), render_of_charsOf rfl]

end CodeUnit

end CommandBot
