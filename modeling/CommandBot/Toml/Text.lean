import CommandBot.Text.Quoted
import CommandBot.Text.Scan

/-
  The texts of a TOML document: blanks, comments and the four kinds of strings. Control characters
  stand nowhere but in escapes; strings over several lines drop a line break that comes first, and
  a line break in them is always one character.
-/

namespace CommandBot.Toml

open CommandBot.Text

def isSpace (c : Char) : Bool := c == ' ' || c == '\t'

/-- Characters that may stand for themselves: all but control characters. -/
def isPlain (c : Char) : Bool := c == '\t' || (0x20 ≤ c.toNat && c.toNat != 0x7F)

def skipSpaces : Scan Unit := Scan.skipWhile isSpace

def newline : Scan Unit := Scan.char '\n' <|> Scan.exactly "\r\n"

def comment : Scan Unit := do
  Scan.char '#'
  Scan.skipWhile isPlain

/-- What may stand behind a statement, up to the end of its line. -/
def lineEnd : Scan Unit := do
  skipSpaces
  let _ ← Scan.optional comment
  newline <|> Scan.atEnd

/-- Blanks, line breaks and comments. -/
def skipLines : Scan Unit :=
  discard (Scan.many (discard (Scan.one isSpace) <|> newline <|> (do comment; newline)))

/-! ## Strings -/

/-- A character by so many hexadecimal digits. -/
def codePoint (digits : Nat) : Scan Char := do
  let ds ← Scan.times isHexDigit digits
  let n := ds.foldl (fun n d => 16 * n + hexValue d) 0
  if isCodePoint n then return Char.ofNat n else failure

/-- The character that a letter behind a backslash stands for. -/
def named? : Char → Option Char
  | '"' => some '"'
  | '\\' => some '\\'
  | 'b' => some '\x08'
  | 'f' => some '\x0C'
  | 'n' => some '\n'
  | 'r' => some '\r'
  | 't' => some '\t'
  | _ => none

/-- An escape. -/
def escaped : Scan Char := do
  Scan.char '\\'
  let c ← Scan.one fun _ => true
  if c = 'u' then codePoint 4
  else if c = 'U' then codePoint 8
  else
    match named? c with
    | some d => return d
    | none => failure

/-- A string with escapes on one line. -/
def basicString : Scan String := do
  Scan.char '"'
  let cs ← Scan.many (escaped <|> Scan.one fun c => isPlain c && c != '"' && c != '\\')
  Scan.char '"'
  return String.ofList cs

/-- A string without escapes on one line. -/
def literalString : Scan String := do
  Scan.char '\''
  let cs ← Scan.takeWhile fun c => isPlain c && c != '\''
  Scan.char '\''
  return String.ofList cs

def lineBreak : Scan (List Char) := do
  newline
  return ['\n']

/-- A backslash at the end of a line drops all blanks behind it. -/
def gap : Scan (List Char) := do
  Scan.char '\\'
  skipSpaces
  newline
  let _ ← Scan.many (discard (Scan.one isSpace) <|> newline)
  return []

/-- One or two quotes within a string over several lines. -/
def innerQuotes (q : Char) : Scan (List Char) := do
  let qs ← Scan.someWhile (· == q)
  if qs.length < 3 then return qs else failure

/-- The end of a string over several lines, with up to two quotes that still belong to it. -/
def closingQuotes (q : Char) : Scan (List Char) := do
  let qs ← Scan.someWhile (· == q)
  if 3 ≤ qs.length ∧ qs.length ≤ 5 then return qs.drop 3 else failure

/-- A string over several lines, given its quote and what else may stand in it. -/
def longString (q : Char) (part : Scan (List Char)) : Scan String := do
  Scan.exactly (String.ofList [q, q, q])
  let _ ← Scan.optional newline
  let parts ← Scan.many (part <|> lineBreak <|> innerQuotes q)
  let rest ← closingQuotes q
  return String.ofList (parts.flatten ++ rest)

def longBasicString : Scan String :=
  longString '"' (gap <|> ((fun c => [c]) <$> escaped) <|>
    Scan.someWhile fun c => isPlain c && c != '"' && c != '\\')

def longLiteralString : Scan String :=
  longString '\'' (Scan.someWhile fun c => isPlain c && c != '\'')

/-- A string of any kind. -/
def string : Scan String := longBasicString <|> longLiteralString <|> basicString <|> literalString

/-! ## Keys -/

def isBareKey (c : Char) : Bool :=
  ('a' ≤ c && c ≤ 'z') || ('A' ≤ c && c ≤ 'Z') || ('0' ≤ c && c ≤ '9') || c == '-' || c == '_'

def simpleKey : Scan String :=
  basicString <|> literalString <|> (String.ofList <$> Scan.someWhile isBareKey)

/-- How deep keys and values may be nested. -/
def nestingLimit : Nat := 80

/-- The names of a key between dots. -/
def key : Scan (List String) := do
  let first ← simpleKey
  let rest ← Scan.many do
    skipSpaces
    Scan.char '.'
    skipSpaces
    simpleKey
  if rest.length + 1 < nestingLimit then return first :: rest else failure

end CommandBot.Toml
