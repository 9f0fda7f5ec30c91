import CommandBot.Grammar.Type
import CommandBot.Text.Quoted

/-
  Patterns, and paths in expressions, whose generic arguments stand behind `::`. The number of a
  field prints in decimal digits, however it is written.
-/

namespace CommandBot.Grammar

def expressionSegment : Syntax :=
  .ifAhead rootWord (token segmentWord)
    (.seq (token segmentWord)
      (cases
        [(turbofishAhead, .seq (op "::") (.rule .arguments)),
         (both (operatorAhead "::") (third (groupAhead .parenthesis)), callTypes)]
        .nothing))

def expressionPathRule : Syntax :=
  .seq (.ifAhead (operatorAhead "<") qualification (maybe "::"))
    (.seq expressionSegment (segments expressionSegment))

def expressionPathAhead : Ahead :=
  anyOf [first segmentWord, operatorAhead "::", operatorAhead "<"]

def rangeAhead : Ahead := operatorAhead ".."

/-- The sign of a range. -/
def rangeSign : Syntax :=
  cases [(operatorAhead "..=", op "..="), (operatorAhead "...", op "...")] (op "..")

def patternRangeEnd : Ahead :=
  anyOf [atEnd, operatorAhead "|", operatorAhead "=", both (operatorAhead ":") (never (operatorAhead "::")),
    operatorAhead ",", operatorAhead ";", wordAhead "if", wordAhead "in"]

/-- A bound of a range in a pattern. -/
def patternBound : Syntax :=
  cases [(literalAhead, literal), (wordAhead "const", .seq (word "const") block)]
    (.rule .expressionPath)

/-- A range behind its lower bound, if one is written. -/
def patternRange : Syntax :=
  optional rangeAhead (.seq rangeSign (.ifAhead patternRangeEnd .nothing patternBound))

/-- A pattern for the whole value behind `@`, if one is written. -/
def patternBinding : Syntax := optional (operatorAhead "@") (.seq (op "@") (.rule .alternative))

/-- The value of a whole number without a suffix, in any base. -/
def wholeValue? (cs : List Char) : Option Nat :=
  let (base, digits) :=
    match cs with
    | '0' :: 'x' :: rest => (16, rest)
    | '0' :: 'o' :: rest => (8, rest)
    | '0' :: 'b' :: rest => (2, rest)
    | _ => (10, cs)
  let isDigit := fun c => Text.isHexDigit c && Text.hexValue c < base
  if digits.any isDigit && digits.all (fun c => c == '_' || isDigit c) then
    some ((digits.filter isDigit).foldl (fun v c => base * v + Text.hexValue c) 0)
  else none

/-- The number of a field as it prints: in decimal digits. -/
def index? (cs : List Char) : Option String :=
  (wholeValue? cs).bind fun n =>
    if n < 4294967296 then some (String.ofList (Nat.toDigits 10 n)) else none

/-- The name of a field, or its number. -/
def fieldName : Syntax :=
  .leaf fun
    | .word w => if isName (.word w) then some [.word w] else none
    | .literal text s => (index? text.toList).map fun i => [.literal i s]
    | _ => none

/-- A field of a structured value in a pattern. -/
def patternField : Syntax :=
  .seq outerAttributes
    (.ifAhead rangeAhead (op "..")
      (all [maybeWord "box", maybeWord "ref", maybeWord "mut", fieldName,
        optional (operatorAhead ":") (.seq (op ":") (.rule .pattern))]))

/-- A pattern that begins with a path: a name, a constant, a value or a macro call. -/
def pathPattern : Syntax :=
  .seq (.rule .expressionPath)
    (cases
      [(bangAhead, callArguments),
       (operatorAhead "@", patternBinding),
       (groupAhead .parenthesis, .inside .parenthesis (listed (.seq outerAttributes (.rule .pattern)))),
       (groupAhead .brace, .inside .brace (listed patternField)),
       (rangeAhead, patternRange)]
      .nothing)

def alternativeRule : Syntax :=
  cases
    [(literalAhead, .seq literal patternRange),
     (wordAhead "const", all [word "const", block, patternRange]),
     (wordAhead "_", word "_"),
     (first (isOneOf ["ref", "mut"]),
        all [maybeWord "ref", maybeWord "mut", token (fun t => isName t || isWord "self" t),
          patternBinding]),
     (wordAhead "box", .seq (word "box") (.rule .alternative)),
     (operatorAhead "&", all [op "&", maybeWord "mut", .rule .alternative]),
     (groupAhead .parenthesis,
        .inside .parenthesis (listed (.seq outerAttributes (.rule .pattern)))),
     (groupAhead .bracket, .inside .bracket (listed (.seq outerAttributes (.rule .pattern)))),
     (rangeAhead, .seq rangeSign (.ifAhead patternRangeEnd .nothing patternBound)),
     (expressionPathAhead, pathPattern)]
    .fail

def patternRule : Syntax :=
  let bar := both (operatorAhead "|") (never (either (operatorAhead "||") (operatorAhead "|=")))
  all [optional bar (op "|"), .rule .alternative, .whileAhead bar (.seq (op "|") (.rule .alternative))]

end CommandBot.Grammar
