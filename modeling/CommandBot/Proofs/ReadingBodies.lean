import CommandBot.Bot.Dispatcher
import CommandBot.Proofs.ReadingCode

/-
  The bodies of generated methods are read as they were written. A body is a fixed text around what
  a bot brings along: its type, the names of its commands, the keys and the token. What is fixed is
  read by evaluation; the rest is put together from the parts.
-/

namespace CommandBot

open Grammar Template TokenTree

variable {n : Nat} {z : List TokenTree} {w : Word}

/-! ## The bot inside its dispatcher -/

namespace Dispatcher

/-- The default value of a type, as an expression. -/
def defaultCall (T : List TokenTree) : List TokenTree :=
  angles (T ++ words ["as"] ++ rootPath ["core", "default", "Default"]) ++ pathMark ++
    words ["default"] ++ parens []

theorem operand_defaultCall {T : List TokenTree} (hT : ReadsAsType true T) (hn : depth T ≤ n + 5)
    (hz : postfixAhead z = false) :
    readRule rules (n + 7) (.operand true) (defaultCall T ++ z) = some (defaultCall T, z) := by
  have hqualified := expressionPath_qualified (w := .made "default") rfl
    (qualification_as (P := rootPath ["core", "default", "Default"]) (hT (n + 5) _ hn rfl) rfl) rfl
    (z := parens [] ++ z) rfl
  have hnone : (listed expression).read (readRule rules (n + 6)) [] = some ([], []) := rfl
  have hcall := postfixes_call (s := .generated) hnone (postfixes_nil hz) hz
  have hread := operand_of_path rfl (pathOperand_of_path (b := true) hqualified rfl rfl) hcall
  simp only [List.append_assoc] at hread
  simp only [defaultCall, angles, List.append_assoc]
  exact hread

/-- What a new dispatcher is made of. -/
def newBody (T : List TokenTree) : List TokenTree :=
  words ["Self"] ++ braces (words ["bot"] ++ (sign ':' ++ (defaultCall T ++ comma)))

theorem readBy_newBody {T : List TokenTree} (hT : ReadsAsType true T) :
    readBy statements (newBody T) = some (newBody T, []) := by
  refine readBy_statements_of_operand (List.cons_ne_nil _ _) rfl fun n hn => ?_
  have hdepth : depth T ≤ n + 10 := by
    simp only [depth, newBody, words, braces, grouped, defaultCall, angles, weightOf_append, sign,
      weightOf, weight, List.map_cons, List.cons_append] at hn ⊢
    omega
  have hvalue : expression.read (readRule rules (n + 13)) (defaultCall T ++ comma) =
      some (defaultCall T, comma) :=
    expression_of_operand (operand_defaultCall (n := n + 5) hT hdepth rfl) rfl
  have hname : fieldName.read (readRule rules (n + 13))
      (words ["bot"] ++ (sign ':' ++ (defaultCall T ++ comma))) =
        some (words ["bot"], sign ':' ++ (defaultCall T ++ comma)) := rfl
  have hfield : fieldValue.read (readRule rules (n + 13))
      (words ["bot"] ++ (sign ':' ++ (defaultCall T ++ comma))) =
        some (words ["bot"] ++ (sign ':' ++ defaultCall T), comma) :=
    read_seq (g := outerAttributes) (p := []) rfl
      (read_seq hname (read_optional (operatorAhead ":") rfl (read_seq (read_sign ':') hvalue)))
  have hfields := read_inside (d := .brace) (s := .generated) (z := [])
    (read_listed_one (List.cons_ne_nil _ _) hfield)
  have hself : (Grammar.rule .expressionPath : Syntax).read (readRule rules (n + 13)) (newBody T) =
      some (words ["Self"], braces (words ["bot"] ++ (sign ':' ++ (defaultCall T ++ comma)))) := rfl
  have hpath := read_seq (h := cases
      [(both bangAhead (second (first isAnyGroup)), callArguments),
       (fun ts => true && groupAhead .brace ts, .inside .brace (listed fieldValue))]
      .nothing) hself hfields
  have hread := operand_of_path rfl hpath (postfixes_nil rfl)
  simp only [List.append_assoc, List.append_nil] at hread
  exact hread

def botBody : List TokenTree := sign '&' ++ words ["self"] ++ dot ++ words ["bot"]

theorem readBy_botBody : readBy statements botBody = some (botBody, []) :=
  readBy_statements_of_operand (List.cons_ne_nil _ _) rfl fun _ _ => rfl

/-- The default value of a dispatcher is a new one. -/
def defaultBody : List TokenTree := words ["Self"] ++ pathMark ++ words ["new"] ++ parens []

theorem readBy_defaultBody : readBy statements defaultBody = some (defaultBody, []) :=
  readBy_statements_of_operand (List.cons_ne_nil _ _) rfl fun _ _ => rfl

/-! ## Running a bot -/

def runBody : List TokenTree :=
  words ["self"] ++ call "run_with" (library ["ClientBuilder", "new"] ++ parens []) ++ dot ++
    words ["await"]

theorem readBy_runBody : readBy statements runBody = some (runBody, []) :=
  readBy_statements_of_operand (List.cons_ne_nil _ _) rfl fun _ _ => rfl

/-- The error of a bot whose token is in no variable. -/
def missingToken (name : String) : List TokenTree :=
  sign '|' ++ words ["_"] ++ sign '|' ++ library ["ClientError", "TokenEnv"] ++
    braces
      (words ["var"] ++ sign ':' ++ rootPath ["std", "string", "String", "from"] ++
        parens (textLiteral name) ++ comma)

theorem read_missingToken (name : String) :
    (listed expression).read (readRule rules (n + 12)) (missingToken name) =
      some (missingToken name, []) := rfl

theorem expression_tokenTrees (u : Dispatcher) :
    readRule rules (n + 14) (.expression true) (u.tokenTrees ++ (sign ';' ++ z)) =
      some (u.tokenTrees, sign ';' ++ z) := by
  unfold tokenTrees
  split
  · rfl
  · rename_i name _
    have hname : (listed expression).read (readRule rules (n + 12)) (textLiteral name) =
        some (textLiteral name, []) := rfl
    have hpath : ∀ ts, (pathOperand true).read (readRule rules (n + 12))
        (rootPath ["std", "env", "var"] ++ (parens (textLiteral name) ++ ts)) =
          some (rootPath ["std", "env", "var"], parens (textLiteral name) ++ ts) := fun _ => rfl
    have htry := postfixes_try (f := readRule rules (n + 12)) (z := sign ';' ++ z)
      (postfixes_nil rfl) rfl
    have herror := postfixes_member (w := .made "map_err") rfl rfl
      (postfixes_call (s := .generated) (read_missingToken (n := n) name) htry rfl) rfl
    have hread := operand_of_path rfl (hpath _) (postfixes_call (s := .generated) hname herror rfl)
    exact expression_of_operand hread rfl

def letToken (u : Dispatcher) : List TokenTree :=
  words ["let", "token"] ++ sign '=' ++ u.tokenTrees ++ sign ';'

theorem statement_letToken (u : Dispatcher) :
    readRule rules (n + 15) .statement (u.letToken ++ z) = some (u.letToken, z) := by
  have hpattern : ∀ ts, (Grammar.rule .pattern : Syntax).read (readRule rules (n + 14))
      (words ["token"] ++ (sign '=' ++ ts)) = some (words ["token"], sign '=' ++ ts) := fun _ => rfl
  have hvalue : expression.read (readRule rules (n + 14)) (u.tokenTrees ++ (sign ';' ++ z)) =
      some (u.tokenTrees, sign ';' ++ z) := expression_tokenTrees u
  have hassigned := read_seq (read_sign '=')
    (read_seq hvalue (read_optional_not (g := .seq (word "else") block) (wordAhead "else") rfl))
  have hread := read_seq (g := outerAttributes) (read_whileAhead_nil rfl)
    (read_seq (read_word "let")
      (read_seq (hpattern _)
        (read_seq (read_optional_not (g := .seq (op ":") type) (operatorAhead ":") rfl)
          (read_seq (read_optional (operatorAhead "=") rfl hassigned) (read_sign ';')))))
  simp only [List.append_nil, List.nil_append, List.append_assoc] at hread
  simp only [letToken, List.append_assoc]
  exact hread

def announcement (u : Dispatcher) : List TokenTree :=
  library ["__private", "tracing", "info"] ++ sign '!' ++
    parens
      (words ["bot"] ++ sign '=' ++ textLiteral u.name ++ comma ++ textLiteral "Running a bot") ++
    sign ';'

def letThis : List TokenTree :=
  words ["let", "this"] ++ sign '=' ++ rootPath ["std", "sync", "Arc", "new"] ++
    parens (words ["self"]) ++ sign ';'

/-- The login, with a listener that dispatches. -/
def login : List TokenTree :=
  words ["builder"] ++ call "set_token" (words ["token"]) ++
    call "add_message_create_listener"
      (words ["move"] ++ sign '|' ++ words ["event"] ++ sign '|' ++ words ["this"] ++
        call "on_message" (words ["event"])) ++
    call "login" [] ++ dot ++ words ["await"]

theorem statement_announcement (u : Dispatcher) :
    readRule rules (n + 10) .statement (u.announcement ++ z) = some (u.announcement, z) := rfl

theorem statement_letThis :
    readRule rules (n + 10) .statement (letThis ++ z) = some (letThis, z) := rfl

theorem statement_login : readRule rules (n + 16) .statement login = some (login, []) := rfl

def runWithBody (u : Dispatcher) : List TokenTree :=
  u.announcement ++ (u.letToken ++ (letThis ++ login))

theorem readBy_runWithBody (u : Dispatcher) :
    readBy statements u.runWithBody = some (u.runWithBody, []) := by
  obtain ⟨n, hn⟩ := exists_depth_eq u.runWithBody (List.cons_ne_nil _ _)
  rw [readBy, hn]
  exact read_statements_cons (List.cons_ne_nil _ _) (statement_announcement (n := n + 6) u)
    (read_statements_cons (List.cons_ne_nil _ _) (statement_letToken (n := n + 1) u)
      (read_statements_cons (List.cons_ne_nil _ _) (statement_letThis (n := n + 6))
        (read_statements_last (List.cons_ne_nil _ _) statement_login)))

end Dispatcher

/-! ## Calling a command -/

namespace Handler

theorem read_arguments (h : Handler) (n : Nat) :
    (listed expression).read (readRule rules (n + 13)) h.arguments = some (h.arguments, []) := by
  unfold arguments
  split <;> rfl

theorem readBy_callTrees {h : Handler} (hname : isName (.word h.name) = true)
    (howner : ∀ t, h.delegate = .associated t → ReadsAsType true t.trees) :
    readBy statements h.callTrees = some (h.callTrees, []) := by
  unfold callTrees
  split
  · refine readBy_statements_of_operand (List.cons_ne_nil _ _) rfl fun n _ => ?_
    have hcall := postfixes_call (s := .generated) (z := []) (h.read_arguments n)
      (postfixes_nil rfl) rfl
    have hfield := postfixes_member (w := .made "bot") rfl rfl (postfixes_member hname rfl hcall rfl)
      rfl
    have hread := operand_of_word (b := true) "self" hfield rfl rfl
    exact hread
  · rename_i owner hdelegate
    refine readBy_statements_of_operand (List.cons_ne_nil _ _) rfl fun n hn => ?_
    have hdepth : depth owner.trees ≤ n + 12 := by
      simp only [depth, angles, weightOf_append, pathMark, sign, weightOf, weight] at hn ⊢
      omega
    have hqualified := expressionPath_qualified rfl
      (qualification_type (howner owner hdelegate (n + 12) _ hdepth rfl)) hname
      (z := parens h.arguments) rfl
    have hcall := postfixes_call (s := .generated) (z := []) (h.read_arguments n)
      (postfixes_nil rfl) rfl
    have hread := operand_of_path rfl (pathOperand_of_path (b := true) hqualified rfl rfl) hcall
    simp only [List.append_assoc] at hread
    simp only [angles, List.append_assoc]
    exact hread

end Handler

/-! ## Dispatching a message -/

namespace DispatchTable

/-- The reply of a handler to an event. -/
def reply (w : Word) : List TokenTree :=
  words ["self"] ++ (dot ++ .word w :: parens (words ["event"]))

theorem read_reply (hw : isName (.word w) = true) :
    (listed expression).read (readRule rules (n + 8)) (reply w) = some (reply w, []) := by
  have hevent : (listed expression).read (readRule rules (n + 6)) (words ["event"]) =
      some (words ["event"], []) := rfl
  have hcall := postfixes_call (s := .generated) (z := []) hevent (postfixes_nil rfl) rfl
  have hexpression : expression.read (readRule rules (n + 8)) (reply w) = some (reply w, []) :=
    expression_of_operand (operand_of_word "self" (postfixes_member hw rfl hcall rfl) rfl rfl) rfl
  exact read_listed_last (List.cons_ne_nil _ _) hexpression

def errPattern : List TokenTree :=
  rootPath ["core", "result", "Result", "Err"] ++ parens (words ["err"])

/-- The sending of a reply. -/
def sending (w : Word) : List TokenTree :=
  words ["event"] ++ (call "channel" [] ++ call "send_message" (reply w))

theorem operand_sending (hw : isName (.word w) = true) (hz : groupAhead .brace z = true) :
    readRule rules (n + 11) (.operand false) (sending w ++ z) = some (sending w, z) := by
  have hend : postfixAhead z = false := by
    cases z with
    | nil => rfl
    | cons t z =>
      cases t with
      | group d content s => cases d <;> first | rfl | cases hz
      | word w => cases hz
      | mark c spacing s => cases hz
      | literal text s => cases hz
  have hsend := postfixes_member (w := .made "send_message") rfl rfl
    (postfixes_call (s := .generated) (read_reply (n := n + 2) hw) (postfixes_nil hend) hend) hend
  have hnone : (listed expression).read (readRule rules (n + 10)) [] = some ([], []) := rfl
  have hchannel := postfixes_member (w := .made "channel") rfl rfl
    (postfixes_call (s := .generated) hnone hsend hend) hend
  exact operand_of_word "event" hchannel rfl rfl

/-- What an arm tries: to send the reply of its handler. -/
def attempt (w : Word) : List TokenTree :=
  words ["let"] ++ (errPattern ++ (sign '=' ++ sending w))

theorem read_attempt (hw : isName (.word w) = true) (content : List TokenTree) :
    condition.read (readRule rules (n + 13)) (attempt w ++ braces content) =
      some (attempt w, braces content) := by
  have hpattern : ∀ ts, (Grammar.rule .pattern : Syntax).read (readRule rules (n + 11))
      (errPattern ++ (sign '=' ++ ts)) = some (errPattern, sign '=' ++ ts) := fun _ => rfl
  have hsend := operand_sending (n := n) (z := braces content) hw rfl
  have hlet := read_seq (read_word "let")
    (read_seq (hpattern _) (read_seq (read_sign '=') (read_rule hsend)))
  have hoperand : readRule rules (n + 12) (.operand false) (attempt w ++ braces content) =
      some (attempt w, braces content) := read_seq (p := []) rfl hlet
  exact expression_of_operand hoperand rfl

/-- The report of a reply that was not sent. -/
def report (key : String) : List TokenTree :=
  library ["__private", "tracing", "error"] ++ sign '!' ++
    parens
      (words ["command"] ++ sign '=' ++ textLiteral key ++ comma ++ words ["error"] ++ sign '=' ++
        sign '%' ++ words ["err"] ++ comma ++ textLiteral "Failed to send reply") ++
    sign ';'

theorem read_armBody (a : Arm) (hname : isName (.word a.handler) = true) :
    block.read (readRule rules (n + 20)) (braces (armBody a) ++ z) =
      some (braces (armBody a), z) := by
  have hreport : block.read (readRule rules (n + 18)) (braces (report a.key)) =
      some (braces (report a.key), []) := rfl
  have hchain := read_seq (read_word "if")
    (read_seq (read_attempt (n := n + 5) hname (report a.key))
      (read_seq hreport
        (read_seq (g := .whileAhead (both (wordAhead "else") (second (wordAhead "if")))
            (all [word "else", word "if", condition, block])) (read_whileAhead_nil rfl)
          (read_optional_not (g := .seq (word "else") block) (wordAhead "else") rfl))))
  have hif : readRule rules (n + 19) .blockLike
      (words ["if"] ++ (attempt a.handler ++ braces (report a.key))) =
        some (words ["if"] ++ (attempt a.handler ++ braces (report a.key)), []) :=
    read_seq (g := label) (p := []) rfl hchain
  have hbody : statements.read (readRule rules (n + 20)) _ = some (_, []) :=
    read_statements_last (List.cons_ne_nil _ _) (statement_of_blockLike rfl hif rfl rfl)
  exact read_inside (read_seq (g := innerAttributes) (p := []) rfl hbody)

/-- Whether a further arm begins. -/
def armAhead : Ahead := either (first isLiteral) (wordAhead "_")

theorem not_continues_of_armAhead (hz : armAhead z = true) :
    either selectionAhead (operatorAhead "?") z = false ∧ operatorAhead "," z = false := by
  cases z with
  | nil => exact ⟨rfl, rfl⟩
  | cons t z =>
    cases t with
    | mark c spacing s => cases hz
    | word w => exact ⟨rfl, rfl⟩
    | literal text s => exact ⟨rfl, rfl⟩
    | group d content s => exact ⟨rfl, rfl⟩

theorem read_arm (a : Arm) (hname : isName (.word a.handler) = true) (hz : armAhead z = true) :
    arm.read (readRule rules (n + 22)) (armTrees a ++ z) = some (armTrees a, z) := by
  obtain ⟨hend, hcomma⟩ := not_continues_of_armAhead hz
  have hpattern : ∀ ts, (Grammar.rule .pattern : Syntax).read (readRule rules (n + 22))
      (textLiteral a.key ++ (fatArrow ++ ts)) = some (textLiteral a.key, fatArrow ++ ts) :=
    fun _ => rfl
  have harrow : ∀ ts, (op "=>" : Syntax).read (readRule rules (n + 22)) (fatArrow ++ ts) =
      some (fatArrow, ts) := fun _ => rfl
  have hblock : readRule rules (n + 22) .blockLike (braces (armBody a) ++ z) =
      some (braces (armBody a), z) :=
    read_seq (g := label) (p := []) rfl (read_armBody (n := n + 1) a hname)
  have hbody : (Grammar.ifAhead blockLikeAhead (.seq (.rule .blockLike) continuation) expression).read
      (readRule rules (n + 22)) (braces (armBody a) ++ z) = some (braces (armBody a), z) :=
    read_seq (read_rule hblock) (read_optional_not (g := .seq postfixes (binaryTail true)) _ hend)
  have hread := read_seq (g := outerAttributes) (read_whileAhead_nil rfl)
    (read_seq (hpattern _)
      (read_seq (read_optional_not (g := .seq (word "if") expression) (wordAhead "if") rfl)
        (read_seq (harrow _) (read_seq hbody (read_optional_not (g := op ",") _ hcomma)))))
  rw [List.append_nil] at hread
  exact hread

theorem read_arms {as : List Arm} (h : ∀ a ∈ as, isName (.word a.handler) = true) :
    (Grammar.whileAhead (never atEnd) arm).read (readRule rules (n + 22))
        (as.flatMap armTrees ++ otherwise) =
      some (as.flatMap armTrees ++ otherwise, []) := by
  induction as with
  | nil => rfl
  | cons a as ih =>
    have hahead : armAhead (as.flatMap armTrees ++ otherwise) = true := by cases as <;> rfl
    have harm := read_arm (n := n) a (h a List.mem_cons_self) hahead
    have harms : 0 < (armTrees a).length := Nat.succ_pos _
    rw [List.flatMap_cons, List.append_assoc]
    refine read_whileAhead_cons rfl harm ?_ (ih fun b hb => h b (List.mem_cons_of_mem a hb)) rfl
    simp only [List.length_append]
    omega

theorem readBy_matchTrees {t : DispatchTable}
    (h : ∀ a ∈ t.arms, isName (.word a.handler) = true) :
    readBy statements t.matchTrees = some (t.matchTrees, []) := by
  obtain ⟨n, hn⟩ : ∃ n, depth t.matchTrees = n + 24 := by
    have hmatch := weight_pos (made "match")
    have hevent := weight_pos (made "event")
    refine ⟨depth t.matchTrees - 24, ?_⟩
    simp only [depth, matchTrees, words, List.map_cons, List.map_nil, weightOf_append, weightOf]
    omega
  have hsubject : ∀ content, condition.read (readRule rules (n + 22))
      (words ["event"] ++ (call "message_content" [] ++ braces content)) =
        some (words ["event"] ++ call "message_content" [], braces content) := fun _ => rfl
  have hinner : innerAhead (t.arms.flatMap armTrees ++ otherwise) = false := by
    cases t.arms <;> rfl
  have harms := read_inside (d := .brace) (s := .generated) (z := [])
    (read_seq (g := innerAttributes) (read_whileAhead_nil hinner) (read_arms (n := n) h))
  have hmatch : readRule rules (n + 23) .blockLike t.matchTrees = some (t.matchTrees, []) :=
    read_seq (g := label) (p := []) rfl (read_seq (read_word "match") (read_seq (hsubject _) harms))
  rw [readBy, hn]
  exact read_statements_last (List.cons_ne_nil _ _) (statement_of_blockLike rfl hmatch rfl rfl)

end DispatchTable

end CommandBot
