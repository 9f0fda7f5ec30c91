import CommandBot.Bot.DispatchTable
import CommandBot.Chat.Message
import CommandBot.Proofs.TextLiteral

/-
  The match of a dispatch table, read back from its code. `MatchCode.ofMethod?` reads the method
  that dispatches: the scrutinee, and the arms with their literals decoded. `MatchCode.taken` picks
  the first arm whose pattern takes the content, and `MatchCode.run` performs its body.
  `ofMethod?_trees` gives the match that the code of a table is; `rendered_match_agrees` says that
  it takes the arm that the table routes to, and has that arm's handler answer on the channel of
  the event.
-/

namespace CommandBot

/-! ## Code of a match -/

/-- A name, or calls of methods that begin at one. -/
inductive CallCode where
  | name (text : String)
  | call (receiver : CallCode) (method : String)
  | callWith (receiver : CallCode) (method : String) (argument : CallCode)
deriving DecidableEq, Repr

/-- What the content of a message is compared with. -/
inductive ArmPattern where
  | text (value : String)
  | any
deriving DecidableEq, Repr

/-- An arm; its body tries an expression, or does nothing. -/
structure MatchArm where
  pattern : ArmPattern
  body : Option CallCode
deriving DecidableEq, Repr

/-- A match on the value of an expression. -/
structure MatchCode where
  scrutinee : CallCode
  arms : List MatchArm
deriving DecidableEq, Repr

/-! ## Reading -/

namespace CallCode

/-- The calls behind a receiver, each on the result of the one before. -/
def chain (receiver : CallCode) : List TokenTree → Option CallCode
  | [] => some receiver
  | .mark '.' _ _ :: .word method :: .group .parenthesis [] _ :: rest =>
    chain (.call receiver method.text) rest
  | .mark '.' _ _ :: .word method :: .group .parenthesis (.word w :: more) _ :: rest =>
    match chain (.name w.text) more with
    | some argument => chain (.callWith receiver method.text argument) rest
    | none => none
  | _ => none

/-- The expression that some tokens are. -/
def ofTrees? : List TokenTree → Option CallCode
  | .word w :: rest => chain (.name w.text) rest
  | _ => none

/-- The expression, and what is in the braces behind it. -/
def ofTreesBefore? (ts : List TokenTree) : Option (CallCode × List TokenTree) :=
  match ts.getLast? with
  | some (.group .brace content _) => (ofTrees? ts.dropLast).map fun e => (e, content)
  | _ => none

end CallCode

namespace MatchArm

/-- The names of a path from the root of all modules, and what stands behind it. -/
def rootPath : List TokenTree → List String × List TokenTree
  | .mark ':' .joint _ :: .mark ':' _ _ :: .word w :: rest =>
    let (names, behind) := rootPath rest
    (w.text :: names, behind)
  | ts => ([], ts)

/-- The expression that a body tries: `if let ::core::result::Result::Err(_) = … { … }`. -/
def body? : List TokenTree → Option (Option CallCode)
  | [] => some none
  | .word first :: .word second :: rest =>
    match rootPath rest with
    | (names, .group .parenthesis [.word _] _ :: .mark '=' .alone _ :: tried) =>
      if first.text = "if" ∧ second.text = "let" ∧ names = ["core", "result", "Result", "Err"] then
        (CallCode.ofTreesBefore? tried).map fun e => some e.1
      else none
    | _ => none
  | _ => none

/-- The arms that some tokens are. -/
def all? : List TokenTree → Option (List MatchArm)
  | [] => some []
  | .literal text _ :: .mark '=' .joint _ :: .mark '>' _ _ :: .group .brace content _ :: rest => do
    let value ← Literal.textValue? text.toList
    let body ← body? content
    let others ← all? rest
    return ⟨.text (String.ofList value), body⟩ :: others
  | .word w :: .mark '=' .joint _ :: .mark '>' _ _ :: .group .brace content _ :: rest => do
    let body ← body? content
    let others ← all? rest
    if w.text = "_" then return ⟨.any, body⟩ :: others else none
  | _ => none

end MatchArm

namespace MatchCode

/-- The match that some tokens are. -/
def ofTrees? : List TokenTree → Option MatchCode
  | .word w :: rest => do
    let (scrutinee, content) ← CallCode.ofTreesBefore? rest
    let arms ← MatchArm.all? content
    if w.text = "match" then return ⟨scrutinee, arms⟩ else none
  | _ => none

/-- The match that is the body of a public method, behind the method's attributes. -/
def ofMethod? : List TokenTree → Option MatchCode
  | .mark '#' _ _ :: .group .bracket _ _ :: rest => ofMethod? rest
  | [.word first, .word second, .word name, .group .parenthesis _ _, .group .brace body _] =>
    if first.text = "pub" ∧ second.text = "fn" ∧ name.text = DispatchTable.methodName then
      ofTrees? body
    else none
  | _ => none

end MatchCode

/-! ## Evaluation by the first match -/

/-- What an expression in a match denotes. -/
inductive Operand where
  | dispatcher
  | event
  | channel
  | text (value : String)
  | sending
deriving DecidableEq, Repr

/-- What a match does to the outside. -/
inductive MatchEffect where
  | ran (handler : String) (m : Message)
  | sent (c : Channel) (text : String)
deriving DecidableEq, Repr

/-- What the handlers return, by their names; nothing where one panics. -/
abbrev HandlerAnswers := String → Message → Option String

namespace CallCode

/-- What a method of the event returns. -/
def ofEvent (m : Message) (method : String) : Option Operand :=
  if method = "message_content" then some (.text m.content)
  else if method = "channel" then some .channel
  else none

/-- The effects of an expression in their order, and its value unless it panics. -/
def evaluate (answers : HandlerAnswers) (m : Message) :
    CallCode → List MatchEffect × Option Operand
  | .name text =>
    ([], if text = "self" then some .dispatcher else if text = "event" then some .event else none)
  | .call receiver method =>
    match receiver.evaluate answers m with
    | (effects, some .event) => (effects, ofEvent m method)
    | (effects, _) => (effects, none)
  | .callWith receiver method argument =>
    match receiver.evaluate answers m with
    | (effects, none) => (effects, none)
    | (effects, some target) =>
      let (others, value) := argument.evaluate answers m
      match target, value with
      | .dispatcher, some .event =>
        (effects ++ others ++ [.ran method m], (answers method m).map .text)
      | .channel, some (.text text) =>
        if method = "send_message" then
          (effects ++ others ++ [.sent m.channel text], some .sending)
        else (effects ++ others, none)
      | _, _ => (effects ++ others, none)

end CallCode

/-- Whether a pattern takes a content. -/
def ArmPattern.takes (content : String) : ArmPattern → Bool
  | .text value => value == content
  | .any => true

namespace MatchCode

/-- The place of the arm that is taken: the first one whose pattern takes the scrutinee. -/
def taken (answers : HandlerAnswers) (m : Message) (c : MatchCode) : Option Nat :=
  match (c.scrutinee.evaluate answers m).2 with
  | some (.text content) => c.arms.findIdx? fun a => a.pattern.takes content
  | _ => none

/-- The effects of the arm that is taken. -/
def run (answers : HandlerAnswers) (m : Message) (c : MatchCode) : List MatchEffect :=
  match ((c.taken answers m).bind (c.arms[·]?)).bind MatchArm.body with
  | some tried => (tried.evaluate answers m).1
  | none => []

end MatchCode

/-! ## The match of a table -/

namespace DispatchTable

/-- The expression that asks the event for its content. -/
def contentCode : CallCode := .call (.name "event") "message_content"

/-- The expression that has a handler answer the event on its channel. -/
def answerCode (handler : String) : CallCode :=
  .callWith (.call (.name "event") "channel") "send_message"
    (.callWith (.name "self") handler (.name "event"))

def armCode (a : Arm) : MatchArm := ⟨.text a.key, some (answerCode a.handler.text)⟩

/-- The match of a table: an arm for each of its arms, and one that takes all else. -/
def matchCode (t : DispatchTable) : MatchCode :=
  ⟨contentCode, t.arms.map armCode ++ [⟨.any, none⟩]⟩

end DispatchTable

section Reading

open DispatchTable Template TokenTree

theorem CallCode.ofTreesBefore?_append_braces (ts content : List TokenTree) :
    CallCode.ofTreesBefore? (ts ++ braces content) =
      (CallCode.ofTrees? ts).map fun e => (e, content) := by
  simp [CallCode.ofTreesBefore?, braces, grouped]

theorem CallCode.ofTrees?_content :
    CallCode.ofTrees? (words ["event"] ++ Template.call "message_content" []) =
      some contentCode := by
  simp [words, Template.call, dot, parens, sign, operator, made, Word.made, grouped,
    CallCode.ofTrees?, CallCode.chain, contentCode]

theorem CallCode.ofTrees?_answer (handler : Word) :
    CallCode.ofTrees?
        (words ["event"] ++ Template.call "channel" [] ++
          Template.call "send_message"
            (words ["self"] ++ dot ++ [.word handler] ++ parens (words ["event"]))) =
      some (answerCode handler.text) := by
  simp [words, Template.call, dot, parens, sign, operator, made, Word.made, grouped,
    CallCode.ofTrees?, CallCode.chain, answerCode]

theorem MatchArm.body?_tried (ts : List TokenTree) :
    MatchArm.body?
        (words ["if", "let"] ++ Template.rootPath ["core", "result", "Result", "Err"] ++
          parens (words ["err"]) ++ sign '=' ++ ts) =
      (CallCode.ofTreesBefore? ts).map fun e => some e.1 := rfl

theorem MatchArm.body?_armBody (a : Arm) :
    MatchArm.body? (armBody a) = some (some (answerCode a.handler.text)) := by
  have hanswer := CallCode.ofTrees?_answer a.handler
  unfold armBody
  rw [List.append_assoc _ (words ["event"]), List.append_assoc _ (words ["event"] ++ _),
    List.append_assoc _ _ (braces _), MatchArm.body?_tried, CallCode.ofTreesBefore?_append_braces,
    hanswer]
  rfl

/-- The arms of a table are read back one by one, in front of any others. -/
theorem MatchArm.all?_armTrees (a : Arm) (rest : List TokenTree) :
    MatchArm.all? (armTrees a ++ rest) = (MatchArm.all? rest).map (armCode a :: ·) := by
  have htrees : armTrees a ++ rest =
      .literal (Text.literal a.key) .generated :: .mark '=' .joint .generated ::
        .mark '>' .alone .generated :: .group .brace (armBody a) .generated :: rest := rfl
  rw [htrees, MatchArm.all?, Text.textValue?_literal, MatchArm.body?_armBody]
  cases MatchArm.all? rest <;> simp [armCode]

theorem MatchArm.all?_otherwise : MatchArm.all? otherwise = some [⟨.any, none⟩] := rfl

theorem MatchArm.all?_arms (as : List Arm) :
    MatchArm.all? (as.flatMap armTrees ++ otherwise) = some (as.map armCode ++ [⟨.any, none⟩]) := by
  induction as with
  | nil => exact MatchArm.all?_otherwise
  | cons a as ih =>
    rw [List.flatMap_cons, List.append_assoc, MatchArm.all?_armTrees, ih]
    rfl

theorem MatchCode.ofTrees?_matchTrees (t : DispatchTable) :
    MatchCode.ofTrees? t.matchTrees = some t.matchCode := by
  have hscrutinee := CallCode.ofTreesBefore?_append_braces
    (words ["event"] ++ Template.call "message_content" []) (t.arms.flatMap armTrees ++ otherwise)
  rw [CallCode.ofTrees?_content] at hscrutinee
  have htrees : t.matchTrees =
      .word (.made "match") :: (words ["event"] ++ Template.call "message_content" [] ++
        braces (t.arms.flatMap armTrees ++ otherwise)) := rfl
  rw [htrees, MatchCode.ofTrees?, hscrutinee]
  simp only [Option.map_some, Option.bind_eq_bind, Option.bind_some, MatchArm.all?_arms]
  rfl

theorem MatchCode.ofMethod?_attributed (content rest : List TokenTree) :
    MatchCode.ofMethod? (attributed content ++ rest) = MatchCode.ofMethod? rest := by
  rfl

/-- The code of a table's method is that of the table's match. -/
theorem MatchCode.ofMethod?_trees (t : DispatchTable) :
    MatchCode.ofMethod? t.trees = some t.matchCode := by
  have hmethod : MatchCode.ofMethod?
      (words ["pub", "fn", methodName] ++
        (parens (receiver ++ comma ++ words ["event"] ++ sign ':' ++ sign '&' ++
          library ["MessageCreateEvent"]) ++
        braces t.matchTrees)) = some t.matchCode := by
    rw [← MatchCode.ofTrees?_matchTrees]
    rfl
  unfold trees doc allowance
  split
  · simpa only [List.append_assoc, List.nil_append, MatchCode.ofMethod?_attributed] using hmethod
  · simpa only [List.append_assoc, MatchCode.ofMethod?_attributed] using hmethod

end Reading

/-! ## Agreement with the route -/

section Agreement

variable (answers : HandlerAnswers) (m : Message)

theorem CallCode.evaluate_contentCode :
    DispatchTable.contentCode.evaluate answers m = ([], some (.text m.content)) := rfl

/-- A handler that answers is run, and then its answer is sent; one that panics is run only. -/
theorem CallCode.evaluate_answerCode (handler : String) :
    ((DispatchTable.answerCode handler).evaluate answers m).1 =
      .ran handler m :: ((answers handler m).map (.sent m.channel ·)).toList := by
  cases h : answers handler m <;>
    simp [DispatchTable.answerCode, CallCode.evaluate, CallCode.ofEvent, h]

theorem ArmPattern.takes_armCode (content : String) (a : Arm) :
    (DispatchTable.armCode a).pattern.takes content = (a.key == content) := rfl

/-- The first match takes the arm at the place of the table's route, or else the one for the rest. -/
theorem MatchCode.taken_matchCode (t : DispatchTable) :
    t.matchCode.taken answers m = some ((t.position? m.content).getD t.arms.length) := by
  have hany : ArmPattern.any.takes m.content = true := rfl
  simp only [MatchCode.taken, DispatchTable.matchCode, CallCode.evaluate_contentCode,
    List.findIdx?_append, List.findIdx?_map, Function.comp_def, ArmPattern.takes_armCode,
    List.findIdx?_singleton, hany, if_true, List.length_map, DispatchTable.position?]
  cases t.arms.findIdx? fun a => a.key == m.content <;> simp

/-- The arm that is routed to stands at the place that the table gives. -/
theorem DispatchTable.route_eq_bind (t : DispatchTable) (content : String) :
    t.route content = (t.position? content).bind (t.arms[·]?) := by
  exact List.find?_eq_bind_findIdx?_getElem?

theorem DispatchTable.position?_lt {t : DispatchTable} {content : String} {i : Nat}
    (h : t.position? content = some i) : i < t.arms.length := by
  exact (List.findIdx?_eq_some_iff_getElem.1 h).1

/-- The match of a table runs the handler that is routed to, and nothing if there is none. -/
theorem MatchCode.run_matchCode (t : DispatchTable) :
    t.matchCode.run answers m =
      match t.route m.content with
      | some a =>
        .ran a.handler.text m :: ((answers a.handler.text m).map (.sent m.channel ·)).toList
      | none => [] := by
  rw [MatchCode.run, MatchCode.taken_matchCode, DispatchTable.route_eq_bind]
  cases hi : t.position? m.content with
  | none => simp [DispatchTable.matchCode]
  | some i =>
    have hlt := DispatchTable.position?_lt hi
    have harm : t.matchCode.arms[i]? = some (DispatchTable.armCode t.arms[i]) := by
      simp [DispatchTable.matchCode, List.getElem?_append_left, hlt]
    simp only [Option.getD_some, Option.bind_some, harm, List.getElem?_eq_getElem hlt]
    exact CallCode.evaluate_answerCode answers m t.arms[i].handler.text

end Agreement

/-- The match that is written for some handlers has their arms in order and one for all else, and
takes for each content the arm that the table routes to, whose handler answers the event. -/
theorem rendered_match_agrees (hs : List Handler) :
    let t := (DispatchTable.build hs).value
    ∃ c, MatchCode.ofMethod? t.trees = some c ∧
      c.scrutinee = .call (.name "event") "message_content" ∧
      c.arms =
        hs.map (fun h =>
          { pattern := .text (Handler.keyMark ++ h.name.text)
            body := some
              (.callWith (.call (.name "event") "channel") "send_message"
                (.callWith (.name "self") h.name.text (.name "event"))) }) ++
          [{ pattern := .any, body := none }] ∧
      ∀ (answers : HandlerAnswers) (m : Message),
        (∃ i, c.taken answers m = some i ∧
          t.position? m.content = (if i < hs.length then some i else none) ∧
          t.arms[i]? = t.route m.content ∧
          (i = hs.length ↔ t.route m.content = none)) ∧
        c.run answers m =
          match t.route m.content with
          | some a =>
            .ran a.handler.text m :: ((answers a.handler.text m).map (.sent m.channel ·)).toList
          | none => [] := by
  intro t
  have hlength : t.arms.length = hs.length := by
    simp [t, DispatchTable.value_build, DispatchTable.ofHandlers]
  refine ⟨t.matchCode, MatchCode.ofMethod?_trees t, rfl, ?_, ?_⟩
  · simp [t, DispatchTable.matchCode, DispatchTable.value_build, DispatchTable.ofHandlers,
      DispatchTable.armCode, DispatchTable.answerCode, Handler.key]
  · intro answers m
    refine ⟨⟨_, MatchCode.taken_matchCode answers m t, ?_⟩, MatchCode.run_matchCode answers m t⟩
    rw [DispatchTable.route_eq_bind]
    cases hi : t.position? m.content with
    | none => simp [hlength]
    | some i =>
      have hlt := DispatchTable.position?_lt hi
      have hlt' : i < hs.length := by omega
      have hne : i ≠ hs.length := by omega
      simp [hlt, hlt', hne]

end CommandBot
