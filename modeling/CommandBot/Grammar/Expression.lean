import CommandBot.Grammar.Pattern

/-
  Expressions and statements, as far as they decide how operators group: an operand, then binary
  operators and further operands. Precedence plays no part in how an expression prints.
-/

namespace CommandBot.Grammar

/-! ## Operators -/

/-- Binary operators; of two that are ahead the longer one comes first. -/
def binaryOperators : List String :=
  ["<<=", ">>=", "&&", "||", "<<", ">>", "+=", "-=", "*=", "/=", "%=", "^=", "&=", "|=", "==", "!=",
   "<=", ">=", "<", ">", "+", "-", "*", "/", "%", "^", "&", "|", "="]

def binaryAhead : Ahead :=
  both (fun ts => binaryOperators.any fun o => operatorAhead o ts)
    (never (either (operatorAhead "=>") (operatorAhead "->")))

def binaryOperator : Syntax :=
  cases (binaryOperators.map fun o => (operatorAhead o, op o)) .fail

/-- What ends a range without an upper bound. -/
def rangeEnd (braces : Bool) : Ahead :=
  anyOf [atEnd, operatorAhead ",", operatorAhead ";", operatorAhead "=", operatorAhead "?",
    both (operatorAhead ".") (never (operatorAhead "..")), operatorAhead "+", operatorAhead "/",
    operatorAhead "%", operatorAhead "^", operatorAhead ">", operatorAhead "<=",
    operatorAhead "!=", operatorAhead "-=", operatorAhead "*=", operatorAhead "&=",
    operatorAhead "|=", operatorAhead "<<=", wordAhead "as",
    fun ts => !braces && groupAhead .brace ts]

def upperBound (braces : Bool) : Syntax :=
  .ifAhead (rangeEnd braces) .nothing (.rule (.operand braces))

/-- Operators and operands behind a first operand. -/
def binaryTail (braces : Bool) : Syntax :=
  .whileAhead (anyOf [rangeAhead, wordAhead "as", binaryAhead])
    (cases
      [(rangeAhead, .seq rangeSign (upperBound braces)),
       (wordAhead "as", .seq (word "as") typeNoPlus)]
      (.seq binaryOperator (.rule (.operand braces))))

def expressionRule (braces : Bool) : Syntax :=
  .seq (.rule (.operand braces)) (binaryTail braces)

/-! ## Calls, fields and indices -/

/-- The number of a tuple's field; one with a point names a field of a field. -/
def fieldNumber : TokenTree → Option (List TokenTree)
  | .literal text s =>
    match text.toList.span (· != '.') with
    | (a, []) => (index? a).map fun i => [.literal i s]
    | (a, _ :: b) =>
      (index? a).bind fun i =>
        if b.isEmpty then some [.literal i s, .mark '.' .alone s]
        else (index? b).map fun j => [.literal i s, .mark '.' .alone s, .literal j s]
  | _ => none

/-- Whether a number ends in a point, so that a further field follows. -/
def pointedNumber : TokenTree → Bool
  | .literal text _ => text.toList.getLast? = some '.'
  | _ => false

/-- What follows the point before a field or a method. -/
def selection : Syntax :=
  .seq (optional (first pointedNumber) (.leaf fieldNumber))
    (.ifAhead (first isNumber) (.leaf fieldNumber)
      (all [token (fun t => isName t || isWord "await" t),
        optional turbofishAhead (.seq (op "::") (.rule .arguments))]))

def selectionAhead : Ahead := both (operatorAhead ".") (never rangeAhead)

def postfixAhead : Ahead :=
  anyOf [groupAhead .parenthesis, groupAhead .bracket, operatorAhead "?", selectionAhead]

/-- Calls, indices, fields and `?` behind an operand. -/
def postfixes : Syntax :=
  .whileAhead postfixAhead
    (cases
      [(groupAhead .parenthesis, .inside .parenthesis (listed expression)),
       (groupAhead .bracket, .inside .bracket expression),
       (operatorAhead "?", op "?")]
      (.seq (op ".") selection))

/-! ## Operands -/

/-- A field of a structured value. -/
def fieldValue : Syntax :=
  .seq outerAttributes
    (.ifAhead rangeAhead (.seq (op "..") (.ifAhead atEnd .nothing expression))
      (.seq fieldName (optional (operatorAhead ":") (.seq (op ":") expression))))

/-- A constant, a call of a macro, or a structured value. -/
def pathOperand (braces : Bool) : Syntax :=
  .seq (.rule .expressionPath)
    (cases
      [(both bangAhead (second (first isAnyGroup)), callArguments),
       (fun ts => braces && groupAhead .brace ts, .inside .brace (listed fieldValue))]
      .nothing)

def ifChain : Syntax :=
  all [word "if", condition, block,
    .whileAhead (both (wordAhead "else") (second (wordAhead "if")))
      (all [word "else", word "if", condition, block]),
    optional (wordAhead "else") (.seq (word "else") block)]

def blockLikeWords : List String := ["if", "match", "while", "loop", "for"]

/-- Whether an expression ahead ends with its own block. -/
def blockLikeAhead : Ahead :=
  anyOf [groupAhead .brace,
    first (isOneOf blockLikeWords),
    both (first (isOneOf ["unsafe", "const", "try"])) (second (groupAhead .brace)),
    both lifetimeAhead (second (operatorAhead ":"))]

/-- Behind an expression that ends with its own block: nothing, unless a field or `?` follows. -/
def continuation : Syntax :=
  optional (either selectionAhead (operatorAhead "?")) (.seq postfixes (binaryTail true))

/-- An arm of a match; after a block the comma may be left out. -/
def arm : Syntax :=
  all [outerAttributes, .rule .pattern,
    optional (wordAhead "if") (.seq (word "if") expression),
    op "=>",
    .ifAhead blockLikeAhead (.seq (.rule .blockLike) continuation) expression,
    maybe ","]

/-- A label before a loop or a block, if one is written. -/
def label : Syntax := optional lifetimeAhead (.seq .lifetime (op ":"))

def blockLikeRule : Syntax :=
  .seq label
    (cases
      [(wordAhead "if", ifChain),
       (wordAhead "match",
          all [word "match", condition,
            .inside .brace (.seq innerAttributes (.whileAhead (never atEnd) arm))]),
       (wordAhead "while", all [word "while", condition, block]),
       (wordAhead "loop", .seq (word "loop") block),
       (wordAhead "for",
          all [word "for", .rule .pattern, word "in", condition, block]),
       (first (isOneOf ["unsafe", "const", "try"]),
          .seq (token (isOneOf ["unsafe", "const", "try"])) block)]
      block)

/-- A parameter of a closure. -/
def closureParameter : Syntax :=
  all [outerAttributes, .rule .alternative,
    optional (operatorAhead ":") (.seq (op ":") type)]

/-- A closure behind the words that qualify it. -/
def closure (braces : Bool) : Syntax :=
  all [op "|",
    .whileAhead (never (either atEnd (operatorAhead "|")))
      (.seq closureParameter (.ifAhead (operatorAhead "|") .nothing (op ","))),
    op "|",
    .ifAhead (operatorAhead "->") (all [op "->", typeNoPlus, block]) (.rule (.expression braces))]

/-- Words that may stand before a closure or an asynchronous block. -/
def closureWord : TokenTree → Bool := isOneOf ["static", "async", "move", "const"]

def operandEnd (braces : Bool) : Ahead :=
  anyOf [atEnd, operatorAhead ",", operatorAhead ";", operatorAhead "=>",
    fun ts => !braces && groupAhead .brace ts]

/-- An expression that may be left out. -/
def resultValue (braces : Bool) : Syntax :=
  .ifAhead (operandEnd braces) .nothing (.rule (.expression braces))

/-- The words before a closure or an asynchronous block, and it. -/
def qualifiedClosure (braces : Bool) : Syntax :=
  all [maybeBinder, .whileAhead (first closureWord) (token closureWord),
    .ifAhead (groupAhead .brace) block (closure braces)]

/-- Elements of an array, or one element and how often it is repeated. -/
def elements : Syntax :=
  optional (never atEnd)
    (.seq expression
      (cases [(operatorAhead ";", .seq (op ";") expression)]
        (.ifAhead atEnd .nothing (.seq (op ",") (listed expression)))))

def operandRule (braces : Bool) : Syntax :=
  let operand : Syntax := .rule (.operand braces)
  .seq outerAttributes
    (cases
      [(operatorAhead "&",
          all [op "&",
            optional (both (wordAhead "raw") (second (first (isOneOf ["const", "mut"]))))
              (.seq (word "raw") (maybeWord "const")),
            maybeWord "mut", operand]),
       (operatorAhead "*", .seq (op "*") operand),
       (operatorAhead "!", .seq (op "!") operand),
       (operatorAhead "-", .seq (op "-") operand),
       (rangeAhead, .seq rangeSign (upperBound braces)),
       (operatorAhead "|", closure braces),
       (both (wordAhead "for") (second (operatorAhead "<")), qualifiedClosure braces),
       (blockLikeAhead, .seq (.rule .blockLike) postfixes),
       (first closureWord, .seq (qualifiedClosure braces) postfixes),
       (wordAhead "let", all [word "let", .rule .pattern, op "=", .rule (.operand false)]),
       (wordAhead "break",
          all [word "break", optional lifetimeAhead .lifetime, resultValue braces]),
       (wordAhead "continue", .seq (word "continue") (optional lifetimeAhead .lifetime)),
       (first (isOneOf ["return", "yield", "become"]),
          .seq (token (isOneOf ["return", "yield", "become"])) (resultValue braces)),
       (wordAhead "_", word "_"),
       (first isLiteral, .seq (token isLiteral) postfixes),
       (groupAhead .parenthesis, .seq (.inside .parenthesis (listed expression)) postfixes),
       (groupAhead .bracket, .seq (.inside .bracket elements) postfixes),
       (expressionPathAhead, .seq (pathOperand braces) postfixes)]
      .fail)

/-! ## Statements -/

def letStatement : Syntax :=
  all [word "let", .rule .pattern,
    optional (operatorAhead ":") (.seq (op ":") type),
    optional (operatorAhead "=")
      (all [op "=", expression, optional (wordAhead "else") (.seq (word "else") block)]),
    op ";"]

/-- Whether the call of a macro with braces is ahead. -/
def braceCallAhead : Ahead
  | .mark ':' _ _ :: .mark ':' _ _ :: rest => braceCallAhead rest
  | .mark '!' _ _ :: rest =>
    groupAhead .brace rest || (first isName rest && second (groupAhead .brace) rest)
  | t :: rest => plainSegment t && braceCallAhead rest
  | [] => false

def braceCall : Syntax := all [plainPath, op "!", optional (first isAnyWord) anyWord, anyGroup]

/-- Whether an item is ahead that is no expression. -/
def itemAhead : Ahead :=
  anyOf
    [first (isOneOf
      ["fn", "struct", "enum", "trait", "impl", "type", "mod", "use", "extern", "pub", "macro"]),
     both (wordAhead "static") (second (either nameAhead (either (wordAhead "mut") (wordAhead "_")))),
     both (wordAhead "const")
       (second (either nameAhead (first (isOneOf ["_", "fn", "unsafe", "extern"])))),
     both (wordAhead "const") (both (second (wordAhead "async")) (third (first (isOneOf ["fn", "unsafe", "extern"])))),
     both (wordAhead "unsafe") (second (first (isOneOf ["fn", "impl", "trait", "extern", "mod", "auto"]))),
     both (wordAhead "async") (second (first (isOneOf ["fn", "unsafe", "extern"]))),
     both (wordAhead "union") (second nameAhead),
     both (wordAhead "auto") (second (wordAhead "trait")),
     both (wordAhead "default") (second (first (isOneOf ["impl", "unsafe", "fn", "const", "type"]))),
     both (wordAhead "macro_rules") (both (second (operatorAhead "!")) (third nameAhead))]

def statementRule : Syntax :=
  .seq outerAttributes
    (cases
      [(operatorAhead ";", op ";"),
       (wordAhead "let", letStatement),
       (itemAhead, .rule .item),
       (braceCallAhead, all [braceCall, continuation, maybe ";"]),
       (blockLikeAhead, all [.rule .blockLike, continuation, maybe ";"])]
      (.seq expression (maybe ";")))

end CommandBot.Grammar
