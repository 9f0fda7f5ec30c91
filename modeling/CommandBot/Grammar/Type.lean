import CommandBot.Grammar.Phrase

/-
  Types, paths, bounds, generic arguments and parameters, and where clauses.
-/

namespace CommandBot.Grammar

/-! ## Paths -/

/-- Words that begin a segment of a path. -/
def segmentWord : TokenTree → Bool
  | .word w =>
    !keywords.contains w.text || ["super", "self", "Self", "crate", "try"].contains w.text
  | _ => false

/-- Words that take no generic arguments. -/
def rootWord : Ahead := first (isOneOf ["super", "self", "crate", "try"])

def angleAhead : Ahead := both (operatorAhead "<") (never (operatorAhead "<="))

/-- Whether generic arguments behind `::` are ahead. -/
def turbofishAhead : Ahead := both (operatorAhead "::") (third (operatorAhead "<"))

/-- Whether the arguments of a function trait are ahead. -/
def callAhead : Ahead :=
  either (groupAhead .parenthesis) (both (operatorAhead "::") (third (groupAhead .parenthesis)))

/-- The result type of a function. -/
def output (plus : Bool) : Syntax :=
  optional (operatorAhead "->") (.seq (op "->") (.rule (.type plus)))

/-- The argument types and the result type of a function trait. -/
def callTypes : Syntax :=
  all [maybe "::", .inside .parenthesis (listed type), output false]

def segment : Syntax :=
  .ifAhead rootWord (token segmentWord)
    (.seq (token segmentWord)
      (cases
        [(either angleAhead turbofishAhead, .seq (maybe "::") (.rule .arguments)),
         (callAhead, callTypes)]
        .nothing))

/-- Further segments of a path. -/
def segments (one : Syntax) : Syntax :=
  .whileAhead (both (operatorAhead "::") (never (third (groupAhead .parenthesis))))
    (.seq (op "::") one)

/-- A type in angle brackets, perhaps as seen through a trait. -/
def qualification : Syntax :=
  all [op "<", type, optional (wordAhead "as") (.seq (word "as") (.rule .path)), op ">", op "::"]

def path : Syntax :=
  .seq (.ifAhead (operatorAhead "<") qualification (maybe "::"))
    (.seq segment (segments segment))

/-! ## Generic arguments -/

/-- A constant as a generic argument. -/
def constant : Syntax := .ifAhead (groupAhead .brace) block literal

def constantAhead : Ahead := either literalAhead (groupAhead .brace)

def boundEnd : Ahead := anyOf [operatorAhead ",", operatorAhead ">"]

/-- Bounds with `+` between them, up to where the test holds. -/
def boundsUntil (stop : Ahead) (one : Syntax) : Syntax :=
  .ifAhead (either atEnd stop) .nothing
    (.seq one
      (.whileAhead (operatorAhead "+")
        (.seq (op "+") (.ifAhead (either atEnd stop) .nothing one))))

def argument : Syntax :=
  cases
    [(both lifetimeAhead (second (never (operatorAhead "+"))), .lifetime),
     (constantAhead, constant)]
    (.seq type
      (cases
        [(operatorAhead "=", .seq (op "=") (.ifAhead constantAhead constant type)),
         (operatorAhead ":", .seq (op ":") (boundsUntil boundEnd (.rule .bound)))]
        .nothing))

def arguments : Syntax :=
  all [op "<",
    .whileAhead (never (either atEnd (operatorAhead ">")))
      (.seq argument (.ifAhead (operatorAhead ">") .nothing (op ","))),
    op ">"]

/-! ## Bounds -/

/-- Lifetimes that a bound or a function type binds. -/
def binder : Syntax :=
  all [word "for", op "<",
    .whileAhead (never (either atEnd (operatorAhead ">")))
      (all [outerAttributes, .lifetime, .ifAhead (operatorAhead ">") .nothing (op ",")]),
    op ">"]

def maybeBinder : Syntax := optional (wordAhead "for") binder

def traitBound : Syntax :=
  all [maybeBinder, optional (groupAhead .bracket) anyGroup, maybe "~", maybeWord "const",
    maybeWord "async", maybe "?", maybeBinder, .rule .path]

/-- The generic parameters that a type may mention. -/
def captures : Syntax :=
  all [word "use", op "<",
    .whileAhead (never (either atEnd (operatorAhead ">")))
      (.seq (.ifAhead lifetimeAhead .lifetime anyWord)
        (.ifAhead (operatorAhead ">") .nothing (op ","))),
    op ">"]

def bound : Syntax :=
  cases
    [(lifetimeAhead, .lifetime), (wordAhead "use", captures),
     (groupAhead .parenthesis, .inside .parenthesis traitBound)]
    traitBound

def boundAhead : Ahead :=
  anyOf [first isAnyWord, operatorAhead "::", operatorAhead "?", lifetimeAhead,
    groupAhead .parenthesis, groupAhead .bracket]

/-- Further bounds behind a first one. -/
def furtherBounds : Syntax :=
  .whileAhead (operatorAhead "+")
    (.seq (op "+") (.ifAhead boundAhead (.rule .bound) .nothing))

def bounds (plus : Bool) : Syntax :=
  .seq (.rule .bound) (if plus then furtherBounds else .nothing)

/-! ## Types -/

def abi : Syntax := .seq (word "extern") (optional (first isText) (token isText))

def maybeAbi : Syntax := optional (wordAhead "extern") abi

/-- A parameter of a function type. -/
def functionArgument : Syntax :=
  .seq outerAttributes
    (.ifAhead (operatorAhead "...") (op "...")
      (all
        [optional (both (wordAhead "mut") (second (wordAhead "self"))) (word "mut"),
         optional
           (both (either (first segmentWord) (wordAhead "_"))
             (second (both (operatorAhead ":") (never (operatorAhead "::")))))
           (.seq anyWord (op ":")),
         .ifAhead (operatorAhead "...") (op "...") type]))

def functionType : Syntax :=
  all [maybeWord "unsafe", maybeAbi, word "fn", .inside .parenthesis (listed functionArgument),
    output false]

def functionAhead : Ahead := first (isOneOf ["fn", "unsafe", "extern"])

/-- What parentheses around types hold. -/
def enclosedTypes : Syntax :=
  cases
    [(atEnd, .nothing), (lifetimeAhead, bounds true), (operatorAhead "?", .rule .bound)]
    (.seq type (optional (operatorAhead ",") (.seq (op ",") (listed type))))

def more (plus : Bool) : Syntax := if plus then furtherBounds else .nothing

/-- A path as a type, the call of a macro, or the first of several bounds. -/
def pathType (plus : Bool) : Syntax :=
  .ifAhead (operatorAhead "<") (.rule .path)
    (.seq (.rule .path) (.ifAhead bangAhead callArguments (more plus)))

/-- The types; `plus` says whether bounds may be added. -/
def typeRule (plus : Bool) : Syntax :=
  cases
    [(wordAhead "for",
        .seq binder (.ifAhead functionAhead functionType (.seq (.rule .path) (more plus)))),
     (groupAhead .parenthesis, .seq (.inside .parenthesis enclosedTypes) (more plus)),
     (functionAhead, functionType),
     (either (first segmentWord) (either (operatorAhead "::") (operatorAhead "<")), pathType plus),
     (wordAhead "dyn", all [word "dyn", maybe "*", bounds plus]),
     (groupAhead .bracket,
        .inside .bracket (.seq type (optional (operatorAhead ";") (.seq (op ";") expression)))),
     (operatorAhead "*",
        all [op "*", token (isOneOf ["const", "mut"]), typeNoPlus]),
     (operatorAhead "&",
        all [op "&", optional lifetimeAhead .lifetime, maybeWord "mut", typeNoPlus]),
     (bangAhead, op "!"),
     (wordAhead "impl", .seq (word "impl") (bounds plus)),
     (wordAhead "_", word "_"),
     (lifetimeAhead, bounds true)]
    .fail

/-! ## Parameters and where clauses -/

/-- Lifetimes with `+` between them. -/
def lifetimeBounds : Syntax :=
  .whileAhead lifetimeAhead (.seq .lifetime (maybe "+"))

def typeParameterEnd : Ahead := anyOf [operatorAhead ",", operatorAhead ">", operatorAhead "="]

def parameter : Syntax :=
  .seq outerAttributes
    (cases
      [(lifetimeAhead, .seq .lifetime (optional (operatorAhead ":") (.seq (op ":") lifetimeBounds))),
       (wordAhead "const",
          all [word "const", name, op ":", type,
            optional (operatorAhead "=") (.seq (op "=") constant)]),
       (either nameAhead (wordAhead "_"),
          all [anyWord,
            optional (operatorAhead ":")
              (.seq (op ":") (boundsUntil typeParameterEnd (.rule .bound))),
            optional (operatorAhead "=") (.seq (op "=") type)])]
      .fail)

/-- Generic parameters in angle brackets, if there are any. -/
def generics : Syntax := .parameters parameter

def clauseEnd : Ahead :=
  anyOf [groupAhead .brace, operatorAhead ",", operatorAhead ";",
    both (operatorAhead ":") (never (operatorAhead "::")), operatorAhead "="]

def predicate : Syntax :=
  .ifAhead (both lifetimeAhead (second (operatorAhead ":")))
    (all [.lifetime, op ":", lifetimeBounds])
    (all [maybeBinder, type, op ":", boundsUntil clauseEnd (.rule .bound)])

/-- A where clause with at least one predicate, or nothing. -/
def whereRule : Syntax :=
  optional (wordAhead "where")
    (.unlessAlone
      (.seq (word "where")
        (.ifAhead (either atEnd clauseEnd) .nothing
          (.seq predicate
            (.whileAhead (both (operatorAhead ",") (never (second (operatorAhead ","))))
              (.seq (op ",") (.ifAhead (either atEnd clauseEnd) .nothing predicate)))))))

end CommandBot.Grammar
