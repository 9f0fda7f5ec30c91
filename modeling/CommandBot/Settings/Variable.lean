import CommandBot.Settings.Datum
import CommandBot.Settings.Basic
import CommandBot.Text.Scan
import CommandBot.Toml.Text

/-
  Settings in environment variables. The name behind the prefix is a path, with two underscores
  between its parts; the value is read as data where it can be, and is a text otherwise.
-/

namespace CommandBot.Variable

open CommandBot.Text

/-! ## Names -/

/-- What the names of all variables with settings begin with, in any case. -/
def mark : String := "MAGICORD_"

/-- Two underscores divide as a dot does. -/
def divided : List Char → List Char
  | '_' :: '_' :: rest => '.' :: divided rest
  | c :: rest => c :: divided rest
  | [] => []

/-- The name behind the mark. -/
def unmarked? (name : List Char) : Option (List Char) :=
  let n := mark.toList.length
  if (name.take n).map Char.toLower = mark.toList.map Char.toLower then some (name.drop n)
  else none

/-- The path that a variable's name stands for. -/
def path? (name : String) : Option (List String) := do
  let rest ← unmarked? (trimBlank name.toList)
  let parts := (trimBlank (divided rest)).splitOnP (· == '.')
  if parts.any List.isEmpty then none
  else some (parts.map fun p => String.ofList (p.map Char.toLower))

/-! ## Values -/

/-- Blanks around values. -/
def isPadding (c : Char) : Bool :=
  c == ' ' || c == '\t' || c == '\n' || c == '\r' || c == '\x0C'

/-- Characters that a value without quotes may hold. -/
def isFree (c : Char) : Bool := c != ',' && c != '{' && c != '}' && c != '[' && c != ']'

def skipPadding : Scan Unit := Scan.skipWhile isPadding

def isDigit (c : Char) : Bool := '0' ≤ c && c ≤ '9'

def valueOf (ds : List Char) : Nat := ds.foldl (fun n d => 10 * n + (d.toNat - '0'.toNat)) 0

def sign : Scan Bool := do
  let c ← Scan.optional (Scan.one fun c => c == '+' || c == '-')
  return c == some '-'

/-- A power of ten. -/
def exponent : Scan Int := do
  let _ ← Scan.one fun c => c == 'e' || c == 'E'
  let negative ← sign
  let n := valueOf (← Scan.someWhile isDigit)
  return if negative then -n else n

/-- A number with a decimal point. -/
def float : Scan Datum := do
  let negative ← sign
  let whole ← Scan.takeWhile isDigit
  Scan.char '.'
  let places ← Scan.takeWhile isDigit
  if whole.isEmpty && places.isEmpty then failure
  let power := (← Scan.optional exponent).getD 0
  return .float (.ofDecimal negative (valueOf (whole ++ places)) (power - places.length))

/-- A whole number of 64 bits, without a sign if it can do without. -/
def integer : Scan Datum := do
  let c ← Scan.optional (Scan.one fun c => c == '+' || c == '-')
  let n := valueOf (← Scan.someWhile isDigit)
  if c != some '-' && n < Nat.pow 2 64 then return .unsigned n
  else if c == some '-' && n ≤ Nat.pow 2 63 then return .signed (-n)
  else failure

/-- What a value without quotes means. -/
def free (cs : List Char) : Datum :=
  ((Scan.all? float cs).or (Scan.all? integer cs)).getD (.text (String.ofList cs))

/-- A text between double quotes. -/
def quoted : Scan String := do
  Scan.char '"'
  let cs ← Scan.many (Toml.escaped <|> Scan.one fun c => c != '"' && c != '\\')
  Scan.char '"'
  return String.ofList cs

/-- A character between single quotes. -/
def character : Scan Datum := do
  Scan.char '\''
  let c ← Scan.one fun _ => true
  Scan.char '\''
  return .character c

def key : Scan String := do
  if (← Scan.peek) = some '"' then quoted
  else String.ofList <$> Scan.someWhile Toml.isBareKey

/-- The items of a list or table up to its end, at most so many. -/
def items {α : Type} (item : Scan α) (close : Char) : Nat → Scan (List α)
  | 0 => failure
  | n + 1 => do
    if (← Scan.peek) = some close then
      Scan.char close
      return []
    else
      let a ← item
      if (← Scan.peek) = some ',' then
        Scan.char ','
        return a :: (← items item close n)
      else
        Scan.char close
        return [a]

/-- A name with its value. -/
def entry (value : Scan Datum) : Scan (String × Datum) := do
  skipPadding
  let k ← key
  skipPadding
  Scan.char '='
  return (k, ← value)

/-- Entries of which each name is kept once, with its last value. -/
def lastOfEach (es : List (String × Datum)) : List (String × Datum) :=
  es.foldl (fun kept e => kept.filter (fun f => f.1 != e.1) ++ [e]) []

/-- A value without the padding around it, given how values in it are read. -/
def bare (value : Scan Datum) : Scan Datum := do
  match ← get with
  | 't' :: 'r' :: 'u' :: 'e' :: _ => do Scan.exactly "true"; return .truth true
  | 'f' :: 'a' :: 'l' :: 's' :: 'e' :: _ => do Scan.exactly "false"; return .truth false
  | '{' :: rest => do
    Scan.char '{'
    return .table (lastOfEach (← items (entry value) '}' (rest.length + 1)))
  | '[' :: rest => do
    Scan.char '['
    return .list (← items value ']' (rest.length + 1))
  | '"' :: _ => return .text (← quoted)
  | '\'' :: _ => character
  | _ => return free (trimBlank (← Scan.takeWhile isFree))

/-- A value nested at most so deep. -/
def value : Nat → Scan Datum
  | 0 => failure
  | n + 1 => do
    skipPadding
    let d ← bare (value n)
    skipPadding
    return d

/-- What the text of a variable means. -/
def datum (s : String) : Datum :=
  (Scan.all? (value (s.toList.length + 1)) s.toList).getD (.text s)

/-- Data at the end of a path. -/
def nest : List String → Datum → Datum
  | [], d => d
  | name :: rest, d => .table [(name, nest rest d)]

/-- The settings that a variable holds, if it holds some. -/
def setting? (v : String × String) : Option (List (String × Datum)) :=
  match path? v.1 with
  | some (name :: rest) => some [(name, nest rest (datum v.2))]
  | _ => none

end CommandBot.Variable
