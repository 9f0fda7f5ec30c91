import CommandBot.Grammar.Expression

/-
  Items, members of blocks of items, and the parts of which functions and impl blocks are made.
-/

namespace CommandBot.Grammar

/-! ## Functions -/

/-- The receiver, when a parameter list begins with it. -/
def receiverAhead : Ahead := fun ts =>
  let ts := if operatorAhead "&" ts then behind ts else ts
  let ts := if lifetimeAhead ts then behind ts else ts
  let ts := if wordAhead "mut" ts then behind ts else ts
  wordAhead "self" ts

/-- The reference by which a receiver is taken. -/
def receiverReference : Syntax :=
  optional (operatorAhead "&") (.seq (op "&") (optional lifetimeAhead .lifetime))

/-- The type behind a receiver that is not taken by reference. -/
def receiverAnnotation : Syntax := optional (operatorAhead ":") (.seq (op ":") type)

/-- A parameter's pattern with its colon. A lone type with generic arguments needs no pattern. -/
def parameterPattern : Syntax :=
  .ifAhead (both nameAhead (second (operatorAhead "<"))) .nothing
    (.seq (.rule .alternative) (op ":"))

def anyParameter : Syntax :=
  .seq outerAttributes
    (cases
      [(operatorAhead "...", op "..."),
       (receiverAhead, all [receiverReference, maybeWord "mut", word "self", receiverAnnotation])]
      (.seq parameterPattern (.ifAhead (operatorAhead "...") (op "...") type)))

def safeAhead : Ahead := both (wordAhead "safe") (second (first (isOneOf ["fn", "extern"])))

/-- Words that qualify a function. -/
def qualifiers : Syntax :=
  all [maybeWord "const", maybeWord "async", optional safeAhead (word "safe"),
    maybeWord "unsafe", maybeAbi]

/-- A function's signature. -/
def signature : Syntax :=
  all [qualifiers, word "fn", name, generics, .inside .parenthesis (listed anyParameter),
    output true, .rule .whereClause]

/-- Whether a function's signature is ahead. -/
def signatureAhead : Ahead := fun ts =>
  let ts := if wordAhead "const" ts then behind ts else ts
  let ts := if wordAhead "async" ts then behind ts else ts
  let ts := if wordAhead "unsafe" ts then behind ts else ts
  let ts := if wordAhead "extern" ts then behind ts else ts
  let ts := if first isText ts then behind ts else ts
  wordAhead "fn" ts

/-! ## Members -/

/-- A constant behind its word: its name, its type and perhaps its value. -/
def constantTail : Syntax :=
  all [token (fun t => isName t || isWord "_" t), generics, op ":", type,
    optional (operatorAhead "=") (.seq (op "=") expression), .rule .whereClause, op ";"]

/-- A type alias behind its word. -/
def aliasTail : Syntax :=
  all [name, generics,
    optional (operatorAhead ":") (.seq (op ":") (boundsUntil clauseEnd (.rule .bound))),
    .rule .whereClause,
    optional (operatorAhead "=") (.seq (op "=") type),
    .rule .whereClause, op ";"]

def staticTail : Syntax :=
  all [maybeWord "mut", name, optional (operatorAhead ":") (.seq (op ":") type),
    optional (operatorAhead "=") (.seq (op "=") expression), op ";"]

/-- The call of a macro as an item: only braces need no semicolon. -/
def macroItem : Syntax :=
  .ifAhead braceCallAhead braceCall
    (all [plainPath, op "!", optional (first isAnyWord) anyWord, anyGroup, op ";"])

def bodyOrSemicolon : Syntax := .ifAhead (groupAhead .brace) block (op ";")

/-- Whether the word that marks a default member is ahead. -/
def defaultAhead : Ahead := both (wordAhead "default") (never (second (operatorAhead "!")))

/-- A member behind its attributes, its visibility and the word `default`. -/
def memberBody : Syntax :=
  cases
    [(either signatureAhead safeAhead, .seq signature bodyOrSemicolon),
     (wordAhead "const", .seq (word "const") constantTail),
     (wordAhead "static", .seq (word "static") staticTail),
     (wordAhead "type", .seq (word "type") aliasTail)]
    macroItem

def memberRule : Syntax :=
  all [outerAttributes, visibility, optional defaultAhead (word "default"), memberBody]

def members : Syntax :=
  .inside .brace (.seq innerAttributes (.whileAhead (never atEnd) (.rule .member)))

/-- Whether a token is a mark of this sign. -/
def isMark (c : Char) : TokenTree → Bool
  | .mark d _ _ => c = d
  | _ => false

/-- Whether a member of an impl block is complete, going by its last token and its marks: a
function needs a body, a constant and a type need a value and nothing that an impl block ignores. -/
def isComplete (ts : List TokenTree) : Bool :=
  let body := ts.dropWhile fun t => !isOneOf ["fn", "const", "type"] t
  match ts.getLast?, body with
  | some (.group .brace _ _), _ => true
  | _, .word w :: rest =>
    if w.text == "type" then
      (rest.takeWhile fun t => !isMark '=' t).all (fun t => !isMark ':' t) && rest.any (isMark '=')
    else if w.text == "const" && !rest.any (isWord "fn") then
      rest.any (isMark '=') && !(rest.takeWhile fun t => !isMark ':' t).any (isMark '<') &&
        !rest.any (isWord "where")
    else !rest.any (isWord "fn") && w.text != "fn"
  | _, _ => true

/-- Members of an impl block; an incomplete one stays as written. -/
def implMember : Syntax := .writtenUnless isComplete (.rule .member)

/-! ## Items -/

def useRule : Syntax :=
  cases
    [(operatorAhead "*", op "*"),
     (groupAhead .brace, .inside .brace (listed (.seq (maybe "::") (.rule .useTree)))),
     (first (fun t => isAnyWord t && !isOneOf ["as", "fn", "struct", "use"] t),
        .seq anyWord
          (cases
            [(operatorAhead "::", .seq (op "::") (.rule .useTree)),
             (wordAhead "as", .seq (word "as") (token fun t => isName t || isWord "_" t))]
            .nothing))]
    .fail

/-- Fields with names. -/
def namedFields : Syntax :=
  .inside .brace (listed (all [outerAttributes, visibility, name, op ":", type]))

/-- Fields without names. -/
def plainFields : Syntax :=
  .inside .parenthesis (listed (all [outerAttributes, visibility, type]))

def structTail : Syntax :=
  all [name, generics, .rule .whereClause,
    cases
      [(groupAhead .brace, namedFields),
       (groupAhead .parenthesis, all [plainFields, .rule .whereClause, op ";"])]
      (op ";")]

def variant : Syntax :=
  all [outerAttributes, visibility, name,
    cases [(groupAhead .brace, namedFields), (groupAhead .parenthesis, plainFields)] .nothing,
    optional (operatorAhead "=") (.seq (op "=") expression)]

def enumTail : Syntax :=
  all [name, generics, .rule .whereClause, .inside .brace (listed variant)]

def traitTail : Syntax :=
  all [name, generics,
    .ifAhead (operatorAhead "=")
      (all [op "=", boundsUntil clauseEnd (.rule .bound), .rule .whereClause, op ";"])
      (all
        [optional (operatorAhead ":") (.seq (op ":") (boundsUntil clauseEnd (.rule .bound))),
         .rule .whereClause, members])]

/-- Whether the generic parameters of an impl block are ahead, rather than a qualified path. -/
def implParametersAhead : Ahead :=
  both (operatorAhead "<")
    (anyOf
      [second (operatorAhead ">"), second (operatorAhead "#"),
       both (second (either lifetimeAhead nameAhead))
         (third (anyOf [operatorAhead ":", operatorAhead ",", operatorAhead ">", operatorAhead "="])),
       second (wordAhead "const")])

/-- The parameters of an impl block, if it has any. -/
def implParameters : Syntax := .ifAhead implParametersAhead generics .nothing

def negativeAhead : Ahead := both (operatorAhead "!") (never (second (groupAhead .brace)))

/-- An impl block behind its first word. -/
def implTail : Syntax :=
  all [implParameters, maybe "?", maybeWord "const", optional negativeAhead (op "!"), type,
    optional (wordAhead "for") (.seq (word "for") type), .rule .whereClause,
    .inside .brace (.seq innerAttributes (.whileAhead (never atEnd) implMember))]

def moduleTail : Syntax :=
  .seq name
    (.ifAhead (groupAhead .brace)
      (.inside .brace
        (.seq innerAttributes (.whileAhead (never atEnd) (.seq outerAttributes (.rule .item)))))
      (op ";"))

def externTail : Syntax :=
  .ifAhead (wordAhead "crate")
    (all [word "crate", token (fun t => isName t || isWord "self" t),
      optional (wordAhead "as") (.seq (word "as") (token fun t => isName t || isWord "_" t)), op ";"])
    (.seq (optional (first isText) (token isText)) members)

/-- A macro defined by itself. -/
def macroTail : Syntax := all [name, optional (groupAhead .parenthesis) anyGroup, anyGroup]

def itemRule : Syntax :=
  all [visibility,
    cases
      [(signatureAhead, .seq signature bodyOrSemicolon),
       (wordAhead "struct", .seq (word "struct") structTail),
       (wordAhead "enum", .seq (word "enum") enumTail),
       (both (wordAhead "union") (second nameAhead),
          all [word "union", name, generics, .rule .whereClause, namedFields]),
       (wordAhead "use", all [word "use", maybe "::", .rule .useTree, op ";"]),
       (wordAhead "static", .seq (word "static") staticTail),
       (wordAhead "const", .seq (word "const") constantTail),
       (wordAhead "type", .seq (word "type") aliasTail),
       (both (wordAhead "extern") (second (wordAhead "crate")), .seq (word "extern") externTail),
       (wordAhead "macro", .seq (word "macro") macroTail)]
      (cases
        [(both (wordAhead "default") (second (first (isOneOf ["impl", "unsafe"]))),
            all [word "default", maybeWord "unsafe", word "impl", implTail]),
         (both (wordAhead "auto") (second (wordAhead "trait")),
            all [word "auto", word "trait", traitTail]),
         (first (isOneOf ["unsafe", "impl", "trait", "mod", "extern", "auto"]),
            .seq (maybeWord "unsafe")
              (cases
                [(wordAhead "impl", .seq (word "impl") implTail),
                 (wordAhead "extern", .seq (word "extern") externTail),
                 (wordAhead "mod", .seq (word "mod") moduleTail)]
                (all [maybeWord "auto", word "trait", traitTail])))]
        macroItem)]

end CommandBot.Grammar
