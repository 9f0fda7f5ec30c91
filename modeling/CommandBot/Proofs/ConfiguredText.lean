import CommandBot.Proofs.Configuration
import CommandBot.Proofs.RenderedUnit
import CommandBot.Proofs.TextLiteral
import CommandBot.Proofs.TokenBinding

/-
  The text that configures a bot, in the text of its unit. A token is spliced into the code as one
  literal, the name of a variable as two (`ArgumentKey.expression`), in a place that does not depend
  on them. `configured_text_survives`: whatever the text is, the unit reads as the same tokens
  around literals that denote it; so another text gives another unit.
-/

namespace CommandBot

open Template TokenTree

/-! ## The expression for a token -/

namespace TokenTree

mutual

/-- The literals in a token. -/
def literals : TokenTree → List String
  | .literal text _ => [text]
  | .group _ content _ => literalsOf content
  | .word _ => []
  | .mark _ _ _ => []

/-- The literals in some tokens, in order. -/
def literalsOf : List TokenTree → List String
  | [] => []
  | t :: rest => t.literals ++ literalsOf rest

end

end TokenTree

namespace TokenSource

/-- The expression for a token, given the literal for the token or for the name of the variable that
holds it. -/
def ArgumentKey.expression : ArgumentKey → TokenTree → List TokenTree
  | .token, t => [t]
  | .env, t =>
    rootPath ["std", "env", "var"] ++ parens [t] ++
      call "map_err"
        (sign '|' ++ words ["_"] ++ sign '|' ++ library ["ClientError", "TokenEnv"] ++
          braces
            (words ["var"] ++ sign ':' ++ rootPath ["std", "string", "String", "from"] ++ parens [t] ++
              comma)) ++
      sign '?'

/-- How often the expression has the literal. -/
def ArgumentKey.copies : ArgumentKey → Nat
  | .token => 1
  | .env => 2

theorem literalsOf_expression (key : ArgumentKey) (text : String) (s : Span) :
    literalsOf (key.expression (.literal text s)) = List.replicate key.copies text := by
  cases key <;> rfl

theorem ArgumentKey.exists_source (source : TokenSource) :
    ∃ (key : ArgumentKey) (value : String), source = key.source value := by
  cases source with
  | literal token => exact ⟨.token, token, rfl⟩
  | env name => exact ⟨.env, name, rfl⟩

end TokenSource

open TokenSource

namespace Dispatcher

theorem tokenTrees_eq {u : Dispatcher} {key : ArgumentKey} {value : String}
    (h : u.token = key.source value) :
    u.tokenTrees = key.expression (.literal (Text.literal value) .generated) := by
  unfold tokenTrees
  rw [h]
  cases key <;> rfl

theorem literal_injective {s t : String} (h : Text.literal s = Text.literal t) : s = t := by
  have hvalue := Text.textValue?_literal s
  rw [h, Text.textValue?_literal] at hvalue
  exact (String.toList_inj.mp (Option.some.inj hvalue)).symm

/-- The expression says what the token is. -/
theorem token_eq_of_tokenTrees {u u' : Dispatcher} (h : u.tokenTrees = u'.tokenTrees) :
    u.token = u'.token := by
  obtain ⟨key, value, hu⟩ := ArgumentKey.exists_source u.token
  obtain ⟨key', value', hu'⟩ := ArgumentKey.exists_source u'.token
  rw [tokenTrees_eq hu, tokenTrees_eq hu'] at h
  have hliterals := congrArg literalsOf h
  rw [literalsOf_expression, literalsOf_expression] at hliterals
  have hkey : key = key' := by
    have hlength := congrArg List.length hliterals
    rw [List.length_replicate, List.length_replicate] at hlength
    revert hlength
    cases key <;> cases key' <;> decide
  subst hkey
  have hvalue : value = value' := by
    have hmem : Text.literal value ∈ List.replicate key.copies (Text.literal value') := by
      rw [← hliterals, List.mem_replicate]
      exact ⟨by cases key <;> decide, rfl⟩
    exact literal_injective (List.eq_of_mem_replicate hmem)
  rw [hu, hu', hvalue]

/-- Before the code of `run_with` stands nothing but code that the type of the bot decides, so equal
code has equal code there. -/
theorem runWithTrees_eq_of_trees {u u' : Dispatcher} (h : u.trees = u'.trees) :
    u.name = u'.name ∧ ∃ after after', u.runWithTrees ++ after = u'.runWithTrees ++ after' := by
  simp only [trees, structTrees, implTrees, attributed, sign, operator, words, brackets, braces,
    grouped, made, comma, textLiteral, List.map_cons, List.map_nil, List.cons_append,
    List.nil_append, List.append_assoc, List.cons.injEq, TokenTree.group.injEq,
    TokenTree.word.injEq, Word.made, Word.mk.injEq, true_and, and_true] at h
  obtain ⟨-, hname, htype, -, hmembers, -⟩ := h
  have htype : u.sourceType.trees = u'.sourceType.trees := List.append_cancel_right htype
  have hnew : u.newTrees = u'.newTrees := by rw [newTrees, newTrees, htype]
  have hbot : u.botTrees = u'.botTrees := by rw [botTrees, botTrees, htype]
  rw [hnew, hbot] at hmembers
  exact ⟨hname, _, _,
    List.append_cancel_left (List.append_cancel_left (List.append_cancel_left hmembers))⟩

/-- The code of a dispatcher says what its token is. -/
theorem token_eq_of_trees {u u' : Dispatcher} (h : u.trees = u'.trees) : u.token = u'.token := by
  obtain ⟨hname, after, after', hrun⟩ := runWithTrees_eq_of_trees h
  refine token_eq_of_tokenTrees ?_
  simp only [runWithTrees, doc, attributed, clientResult, library, rootPath, pathMark, arrow, angles,
    sign, operator, words, brackets, braces, parens, grouped, made, comma, textLiteral,
    List.flatMap_cons, List.flatMap_nil, List.map_cons, List.map_nil, List.cons_append,
    List.nil_append, List.append_assoc, List.cons.injEq, TokenTree.group.injEq, true_and,
    and_true] at hrun
  exact List.append_cancel_right hrun.1.2

end Dispatcher

/-! ## The text that an attribute gives -/

/-- The bot's attribute gives a text for a key: it lists arguments for that key alone, and the literal
of the last one, in whatever form, denotes the text. -/
def Declaration.Gives (d : Declaration) (key : ArgumentKey) (value : String) : Prop :=
  ∃ a ts close as last, attribute? d = some a ∧ a.argumentList? = some (ts, close) ∧
    Lists ts as ∧ as.getLast? = some last ∧ (∀ b ∈ as, b.key = key) ∧ last.value = value

namespace TokenSource

theorem ArgumentKey.source_inj {key key' : ArgumentKey} {value value' : String} :
    key.source value = key'.source value' ↔ key = key' ∧ value = value' := by
  cases key <;> cases key' <;> simp [source]

variable {d : Declaration}

theorem exists_argumentList?_of_ok {a : Attribute} {bot : String} {source : TokenSource}
    (h : (given bot a).bind (choose bot a) = .ok source) :
    ∃ ts close, a.argumentList? = some (ts, close) := by
  rcases harguments : a.arguments with _ | ⟨delimiter, content, s⟩ | ⟨equals, value⟩
  · exact ⟨_, _, by rw [Attribute.argumentList?, harguments]⟩
  · exact ⟨_, _, by rw [Attribute.argumentList?, harguments]⟩
  · rw [given, harguments] at h
    cases h

/-- The source of a token is the text that the bot's attribute gives. -/
theorem ofDeclaration_eq_ok_source_iff {key : ArgumentKey} {value : String} :
    ofDeclaration d = .ok (key.source value) ↔ d.Gives key value := by
  unfold ofDeclaration Declaration.Gives
  constructor
  · intro h
    cases ha : attribute? d with
    | none =>
      rw [ha] at h
      cases h
    | some a =>
      rw [ha] at h
      obtain ⟨ts, close, hlist⟩ := exists_argumentList?_of_ok h
      obtain ⟨as, last, has, hlast, hkeys, hsource⟩ :=
        ((configured_of_argumentList? hlist).ok_iff _).mp h
      obtain ⟨rfl, rfl⟩ := ArgumentKey.source_inj.mp hsource
      exact ⟨a, ts, close, as, last, rfl, hlist, has, hlast, hkeys, rfl⟩
  · rintro ⟨a, ts, close, as, last, ha, hlist, has, hlast, hkeys, rfl⟩
    obtain rfl : last.key = key := hkeys last (List.mem_of_getLast? hlast)
    rw [ha]
    exact ((configured_of_argumentList? hlist).ok_iff _).mpr ⟨as, last, has, hlast, hkeys, rfl⟩

theorem exists_gives_of_ok {source : TokenSource} (h : ofDeclaration d = .ok source) :
    ∃ key value, d.Gives key value := by
  obtain ⟨key, value, rfl⟩ := ArgumentKey.exists_source source
  exact ⟨key, value, ofDeclaration_eq_ok_source_iff.mp h⟩

end TokenSource

/-! ## The text in the unit -/

namespace CodeUnit

/-- The unit reads as the code around a place with the expression for a text in it, whose literals
all denote the text. -/
def CarriesText (c : CodeUnit) (place : TokenPlace) (key : ArgumentKey) (value : String) : Prop :=
  ∃ literal ts, read? c.render = some ts ∧
    unplacedAll ts = place.fillAll (key.expression (.literal literal .generated)) ∧
    literalsOf (key.expression (.literal literal .generated)) = List.replicate key.copies literal ∧
    Literal.textValue? literal.toList = some value.toList

theorem unplacedAll_trees_eq_fillAll {u : Dispatcher} {key : ArgumentKey} {value : String}
    (h : u.token = key.source value) :
    unplacedAll (ofDispatcher u).trees =
      u.unplaced.tokenPlace.fillAll (key.expression (.literal (Text.literal value) .generated)) := by
  have htoken : u.unplaced.token = key.source value := h
  rw [← Dispatcher.tokenTrees_eq htoken, ← u.unplaced.trees_eq_fillAll]
  exact u.unplacedAll_trees

variable {d : Declaration} {u : Dispatcher}

/-- What a bot's attribute gives is the token of its dispatcher. -/
theorem token_eq_of_gives {key : ArgumentKey} {value : String}
    (hu : (Dispatcher.ofDeclaration d).value = .ok u) (h : d.Gives key value) :
    u.token = key.source value := by
  obtain ⟨-, token, htoken, rfl⟩ := (Dispatcher.ofDeclaration_eq_ok_iff d u).mp hu
  rw [ofDeclaration_eq_ok_source_iff.mpr h] at htoken
  exact (Except.ok.inj htoken).symm

/-- Units with the same text have the same token. -/
theorem token_eq_of_render_eq {d' : Declaration} {u' : Dispatcher} (hd : d.IsLegible)
    (hd' : d'.IsLegible) (hu : (Dispatcher.ofDeclaration d).value = .ok u)
    (hu' : (Dispatcher.ofDeclaration d').value = .ok u')
    (h : (ofDispatcher u').render = (ofDispatcher u).render) : u'.token = u.token := by
  obtain ⟨ts, hts, hcode⟩ := exists_read?_render hd hu
  obtain ⟨ts', hts', hcode'⟩ := exists_read?_render hd' hu'
  obtain rfl : ts' = ts := by
    rw [h, hts] at hts'
    exact (Option.some.inj hts').symm
  rw [hcode, u.unplacedAll_trees, u'.unplacedAll_trees] at hcode'
  have htoken : u'.unplaced.token = u.unplaced.token := Dispatcher.token_eq_of_trees hcode'.symm
  exact htoken

/-- An accepted bot's attribute gives a text. With this attribute or any other, the unit reads as the
same code around literals for the text that is given; and units of bots that are given different
texts, or one text for different keys, differ. -/
theorem configured_text_survives (hd : d.Written)
    (hu : (Dispatcher.ofDeclaration d).value = .ok u) :
    (∃ key value, d.Gives key value) ∧
    (∃ place : TokenPlace, place.BindsToken ∧ ∀ attributes u' key value,
      (Dispatcher.ofDeclaration { d with attributes }).value = .ok u' →
      Declaration.Gives { d with attributes } key value →
        (ofDispatcher u').CarriesText place key value) ∧
    ∀ d' u' key value key' value', Declaration.Written d' →
      (Dispatcher.ofDeclaration d').value = .ok u' → d.Gives key value → d'.Gives key' value' →
      (ofDispatcher u').render = (ofDispatcher u).render → key' = key ∧ value' = value := by
  obtain ⟨-, token, htoken, hsound⟩ := (Dispatcher.ofDeclaration_eq_ok_iff d u).mp hu
  refine ⟨exists_gives_of_ok htoken, ⟨u.unplaced.tokenPlace, u.unplaced.bindsToken_tokenPlace, ?_⟩, ?_⟩
  · intro attributes u' key value hu' hgives
    -- Nothing in the code but the token comes from the attributes.
    have hlegible : Declaration.IsLegible { d with attributes } :=
      ⟨hd.isLegible.nameOf, hd.isLegible.selfType, hd.isLegible.owners, hd.isLegible.signatures,
        hd.isLegible.docs⟩
    obtain ⟨ts, hts, hcode⟩ := exists_read?_render hlegible hu'
    have hplace : u'.unplaced.tokenPlace = u.unplaced.tokenPlace := by
      obtain ⟨-, token', -, rfl⟩ := (Dispatcher.ofDeclaration_eq_ok_iff _ u').mp hu'
      rw [hsound]
      rfl
    have hfill := unplacedAll_trees_eq_fillAll (token_eq_of_gives hu' hgives)
    rw [hplace] at hfill
    exact ⟨Text.literal value, ts, hts, hcode.trans hfill, literalsOf_expression _ _ _,
      Text.textValue?_literal value⟩
  · intro d' u' key value key' value' hd' hu' hgives hgives' hrender
    have htoken := token_eq_of_render_eq hd.isLegible hd'.isLegible hu hu' hrender
    rw [token_eq_of_gives hu hgives, token_eq_of_gives hu' hgives'] at htoken
    exact ArgumentKey.source_inj.mp htoken

/-- A token with a quote, a zero before a digit, an escaped accent and a line that is continued. -/
theorem configured_text_survives_escapes :
    ∃ (d : Declaration) (u : Dispatcher) (place : TokenPlace), d.Written ∧
      (Dispatcher.ofDeclaration d).value = .ok u ∧ place.BindsToken ∧
      (ofDispatcher u).CarriesText place .token "\"\x007\u00e9b" := by
  obtain ⟨d, u, hd, hu, htest⟩ := Declaration.exists_written
    ("#[bot(token = \"\\\"\\x007\\u\x7be9\x7d\\\n  b\"suffix)] impl Greeter \x7b \x7d")
    (fun u => u.token = .literal "\"\x007\u00e9b") (by decide +kernel)
  have htoken : u.token = .literal "\"\x007\u00e9b" := of_decide_eq_true htest
  obtain ⟨⟨key, value, hgives⟩, ⟨place, hplace, hcarries⟩, -⟩ := configured_text_survives hd hu
  have hsource : ArgumentKey.token.source "\"\x007\u00e9b" = key.source value :=
    htoken.symm.trans (token_eq_of_gives hu hgives)
  obtain ⟨rfl, rfl⟩ := ArgumentKey.source_inj.mp hsource
  exact ⟨d, u, place, hd, hu, hplace, hcarries d.attributes u .token _ hu hgives⟩

end CodeUnit

end CommandBot
