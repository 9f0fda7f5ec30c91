import CommandBot.Text.Visible

/-
  Quoted texts. `quote` writes a text between double quotes so that every character shows;
  `unescape` reads such a text back, together with the longer spellings a hand may write: byte and
  code point escapes, and a backslash at the end of a line, which drops the blanks after it.
-/

namespace CommandBot.Text

/-- The value of a hexadecimal digit; zero for every other character. -/
def hexValue (c : Char) : Nat :=
  if '0' ≤ c ∧ c ≤ '9' then c.toNat - '0'.toNat
  else if 'a' ≤ c ∧ c ≤ 'f' then c.toNat - 'a'.toNat + 10
  else if 'A' ≤ c ∧ c ≤ 'F' then c.toNat - 'A'.toNat + 10
  else 0

def isHexDigit (c : Char) : Bool :=
  ('0' ≤ c && c ≤ '9') || ('a' ≤ c && c ≤ 'f') || ('A' ≤ c && c ≤ 'F')

/-- A code point that is a character. -/
def isCodePoint (n : Nat) : Bool := n < 0xD800 || (0xE000 ≤ n && n < 0x110000)

/-- A character by its code point. -/
def codeEscape (c : Char) : List Char :=
  '\\' :: 'u' :: '{' :: Nat.toDigits 16 c.toNat ++ ['}']

/-- How one character shows between double quotes. -/
def escapeChar (c : Char) : List Char :=
  if c = '\x00' then ['\\', '0']
  else if c = '\t' then ['\\', 't']
  else if c = '\r' then ['\\', 'r']
  else if c = '\n' then ['\\', 'n']
  else if c = '"' then ['\\', '"']
  else if c = '\\' then ['\\', '\\']
  else if isExtender c || !isPrintable c then codeEscape c
  else [c]

/-- The characters of a text as they show between double quotes. -/
def escape (cs : List Char) : List Char := cs.flatMap escapeChar

/-- A text in double quotes, for a reader. -/
def quote (s : String) : String := String.ofList ('"' :: escape s.toList ++ ['"'])

/-- As `escape`, but no digit that could lengthen the escape follows a bare `\0`. -/
def escapeLiteral : List Char → List Char
  | [] => []
  | '\x00' :: rest =>
    (match rest with
      | d :: _ => if '0' ≤ d ∧ d ≤ '7' then ['\\', 'x', '0', '0'] else ['\\', '0']
      | [] => ['\\', '0']) ++ escapeLiteral rest
  | c :: rest => escapeChar c ++ escapeLiteral rest

/-- A text as the literal that denotes it. -/
def literal (s : String) : String := String.ofList ('"' :: escapeLiteral s.toList ++ ['"'])

/-- What `unescape` is in the middle of. -/
inductive Reading where
  | plain
  /-- after a backslash at the end of a line -/
  | gap
  /-- within a code point escape whose digits so far have this value -/
  | code (value : Nat)
deriving DecidableEq

/-- Blanks that a backslash at the end of a line drops. -/
def isGap (c : Char) : Bool := c == ' ' || c == '\t' || c == '\n' || c == '\r'

/-- The character that a one-letter escape stands for. -/
def namedEscape : Char → Char
  | 'n' => '\n'
  | 'r' => '\r'
  | 't' => '\t'
  | '0' => '\x00'
  | c => c

/-- The text that the characters after an opening quote denote, up to the closing quote. -/
def unescape : Reading → List Char → List Char
  | _, [] => []
  | .code v, c :: rest =>
    if c = '}' then Char.ofNat v :: unescape .plain rest
    else if c = '_' then unescape (.code v) rest
    else unescape (.code (16 * v + hexValue c)) rest
  | _, '"' :: _ => []
  | _, '\\' :: 'x' :: a :: b :: rest =>
    Char.ofNat (16 * hexValue a + hexValue b) :: unescape .plain rest
  | _, '\\' :: 'u' :: '{' :: rest => unescape (.code 0) rest
  | _, '\\' :: '\n' :: rest => unescape .gap rest
  | _, '\\' :: '\r' :: rest => unescape .gap rest
  | _, '\\' :: c :: rest => namedEscape c :: unescape .plain rest
  | .plain, '\r' :: '\n' :: rest => '\n' :: unescape .plain rest
  | .plain, c :: rest => c :: unescape .plain rest
  | .gap, c :: rest => if isGap c then unescape .gap rest else c :: unescape .plain rest

theorem escape_nil : escape [] = [] := rfl

theorem escape_cons (c : Char) (cs : List Char) : escape (c :: cs) = escapeChar c ++ escape cs := by
  simp [escape]

theorem escape_append (s t : List Char) : escape (s ++ t) = escape s ++ escape t := by
  simp [escape]

end CommandBot.Text
