import CommandBot.Text.Identifier
import CommandBot.Text.Quoted

/-
  Literals of the source language. A scanner takes the characters from where a literal may begin
  and answers with those after it, or with nothing if none begins there. `textValue?` gives the
  text that a string literal denotes.
-/

namespace CommandBot.Literal

open CommandBot.Text

/-- A scanner leaves the characters after what it reads. -/
abbrev Scanner := List Char → Option (List Char)

/-- What a quoted literal may hold. -/
inductive Content where
  /-- characters -/
  | text
  /-- ASCII characters and byte escapes -/
  | bytes
  /-- characters other than NUL -/
  | terminated
deriving DecidableEq

/-- The characters after an identifier. -/
def identifier : Scanner
  | [] => none
  | c :: rest => if isIdentifierStart c then some (rest.dropWhile isIdentifierPart) else none

/-- The characters after an optional suffix. -/
def suffix (cs : List Char) : List Char := (identifier cs).getD cs

/-- Whether two digits may follow `\x`. -/
def isByteEscape (content : Content) (a b : Char) : Bool :=
  isHexDigit a && isHexDigit b &&
    match content with
    | .text => hexValue a < 8
    | .bytes => true
    | .terminated => 0 < 16 * hexValue a + hexValue b

/-- Whether a letter may follow a backslash alone. -/
def isNamedEscape (content : Content) (c : Char) : Bool :=
  c == 'n' || c == 'r' || c == 't' || c == '\\' || c == '\'' || c == '"' ||
    (c == '0' && content != .terminated)

/-- Whether a character may stand for itself. -/
def isPlain (content : Content) (c : Char) : Bool :=
  match content with
  | .text => true
  | .bytes => c.toNat < 128
  | .terminated => c != '\x00'

/-- What a quoted literal is in the middle of. -/
inductive Part where
  | plain
  /-- the blanks after a backslash at the end of a line; after a carriage return, or not -/
  | gap (afterReturn : Bool)
  /-- a code point escape with so many digits of this value -/
  | code (digits value : Nat)

/-- The characters after the quote that closes a literal and after its suffix. -/
def quoted (content : Content) : Part → Scanner
  | _, [] => none
  | .code digits value, c :: rest =>
    if c = '}' then
      if 0 < digits ∧ isCodePoint value ∧ (content = .terminated → value ≠ 0) then
        quoted content .plain rest
      else none
    else if c = '_' then if 0 < digits then quoted content (.code digits value) rest else none
    else if isHexDigit c ∧ digits < 6 then
      quoted content (.code (digits + 1) (16 * value + hexValue c)) rest
    else none
  | .gap true, c :: rest => if c = '\n' then quoted content (.gap false) rest else none
  | _, '"' :: rest => some (suffix rest)
  | _, '\\' :: 'x' :: a :: b :: rest =>
    if isByteEscape content a b then quoted content .plain rest else none
  | _, '\\' :: 'u' :: '{' :: rest =>
    if content = .bytes then none else quoted content (.code 0 0) rest
  | _, '\\' :: '\n' :: rest => quoted content (.gap false) rest
  | _, '\\' :: '\r' :: rest => quoted content (.gap true) rest
  | _, '\\' :: c :: rest => if isNamedEscape content c then quoted content .plain rest else none
  | .plain, '\r' :: rest =>
    match rest with
    | '\n' :: more => quoted content .plain more
    | _ => none
  | .gap false, '\r' :: rest => quoted content (.gap true) rest
  | .plain, c :: rest => if isPlain content c then quoted content .plain rest else none
  | .gap false, c :: rest =>
    if c = ' ' ∨ c = '\t' ∨ c = '\n' then quoted content (.gap false) rest
    else if isPlain content c then quoted content .plain rest
    else none

/-- The characters after the code point escape whose opening brace has been read. -/
def code : Nat → Nat → Scanner
  | _, _, [] => none
  | digits, value, c :: rest =>
    if c = '}' then if 0 < digits ∧ isCodePoint value then some rest else none
    else if c = '_' then if 0 < digits then code digits value rest else none
    else if isHexDigit c ∧ digits < 6 then code (digits + 1) (16 * value + hexValue c) rest
    else none

/-- The characters after the end of a raw literal opened with so many hashes. -/
def rawBody (content : Content) (hashes : Nat) : Scanner
  | [] => none
  | c :: rest =>
    if c = '"' ∧ (rest.take hashes).all (· == '#') ∧ hashes ≤ rest.length then
      some (suffix (rest.drop hashes))
    else if c = '\r' then
      match rest with
      | '\n' :: more => rawBody content hashes more
      | _ => none
    else if isPlain content c then rawBody content hashes rest
    else none

/-- The characters after a raw literal whose letters have been read. -/
def raw (content : Content) : Scanner := fun cs =>
  let hashes := (cs.takeWhile (· == '#')).length
  match cs.dropWhile (· == '#') with
  | '"' :: rest => if hashes ≤ 255 then rawBody content hashes rest else none
  | _ => none

/-- The characters after one character or escape. -/
def unit (content : Content) : Scanner
  | '\\' :: 'x' :: a :: b :: rest => if isByteEscape content a b then some rest else none
  | '\\' :: 'u' :: '{' :: rest => if content = .bytes then none else code 0 0 rest
  | '\\' :: c :: rest => if isNamedEscape content c then some rest else none
  | '\\' :: [] => none
  | c :: rest => if isPlain content c then some rest else none
  | [] => none

/-- The characters after a character literal whose opening quote has been read. -/
def character (content : Content) : Scanner := fun cs =>
  match unit content cs with
  | some ('\'' :: rest) => some (suffix rest)
  | _ => none

def isDigitOrBreak (c : Char) : Bool := c.isDigit || c == '_'

/-- The characters after the exponent whose letter has been read. -/
def exponent : Scanner := fun cs =>
  let digits := fun (r : List Char) =>
    if (r.takeWhile isDigitOrBreak).any Char.isDigit then some (r.dropWhile isDigitOrBreak) else none
  match cs.dropWhile (· == '_') with
  | c :: rest => if c = '+' ∨ c = '-' then digits rest else digits cs
  | [] => none

/-- The characters after the digits of a number that is written with a point or an exponent. -/
def fraction : Scanner := fun cs =>
  let tail := fun (dotted : Bool) (r : List Char) =>
    let whole := if dotted then some r else none
    match r with
    | c :: rest => if c = 'e' ∨ c = 'E' then (exponent rest).or whole else whole
    | [] => whole
  match cs with
  | [] => none
  | c :: _ =>
    if !c.isDigit then none
    else
      match cs.dropWhile isDigitOrBreak with
      | '.' :: rest =>
        match rest with
        | d :: _ =>
          if d = '.' ∨ isIdentifierStart d then none else tail true (rest.dropWhile isDigitOrBreak)
        | [] => some []
      | r => tail false r

/-- How far the digits of a base reach; nothing if a decimal digit is too large for it. -/
def digitsOf (base : Nat) : Bool → Scanner
  | seen, [] => if seen then some [] else none
  | seen, c :: rest =>
    if c.isDigit then if hexValue c < base then digitsOf base true rest else none
    else if isHexDigit c ∧ hexValue c < base then digitsOf base true rest
    else if c = '_' then if !seen ∧ base = 10 then none else digitsOf base seen rest
    else if seen then some (c :: rest)
    else none

/-- The characters after the digits of a whole number. -/
def whole : Scanner
  | '0' :: 'x' :: rest => digitsOf 16 false rest
  | '0' :: 'o' :: rest => digitsOf 8 false rest
  | '0' :: 'b' :: rest => digitsOf 2 false rest
  | cs => digitsOf 10 false cs

/-- A number ends where no identifier character follows its suffix. -/
def ended : Scanner := fun cs =>
  match suffix cs with
  | c :: rest => if isIdentifierPart c then none else some (c :: rest)
  | [] => some []

/-- The characters after a literal. -/
def scan : Scanner
  | '"' :: rest => quoted .text .plain rest
  | 'b' :: '"' :: rest => quoted .bytes .plain rest
  | 'c' :: '"' :: rest => quoted .terminated .plain rest
  | 'b' :: '\'' :: rest => character .bytes rest
  | 'b' :: 'r' :: rest => raw .bytes rest
  | 'c' :: 'r' :: rest => raw .terminated rest
  | 'r' :: rest => raw .text rest
  | '\'' :: rest => character .text rest
  | cs => ((fraction cs).bind ended).or ((whole cs).bind ended)

/-- The text denoted by the characters of a literal, if it is a string of characters. -/
def textValue? (text : List Char) : Option (List Char) :=
  match text with
  | '"' :: rest => some (unescape .plain rest)
  | 'r' :: rest =>
    match rest.dropWhile (· == '#') with
    | '"' :: body => some ((body.reverse.dropWhile (· != '"')).drop 1).reverse
    | _ => none
  | _ => none

end CommandBot.Literal
