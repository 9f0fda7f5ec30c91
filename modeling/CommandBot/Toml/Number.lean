import CommandBot.Settings.Datum
import CommandBot.Toml.Text

/-
  Numbers and moments of a TOML document. Underscores may separate digits; whole numbers have to
  fit into 64 bits with a sign. A date or a time becomes a table with one name, which holds its
  normal form.
-/

namespace CommandBot.Toml

open CommandBot.Text

def isDecimal (c : Char) : Bool := '0' ≤ c && c ≤ '9'

/-- The value of some digits. -/
def valueOf (base : Nat) (ds : List Char) : Nat := ds.foldl (fun n d => base * n + hexValue d) 0

/-- Digits, with single underscores between them. -/
def digits (test : Char → Bool) : Scan (List Char) := do
  let first ← Scan.one test
  let rest ← Scan.many (Scan.one test <|> (do Scan.char '_'; Scan.one test))
  return first :: rest

/-- Whether a sign is negative, if there is one. -/
def sign : Scan Bool := do
  let c ← Scan.optional (Scan.one fun c => c == '+' || c == '-')
  return c == some '-'

/-- Digits that begin with no superfluous zero. -/
def decimalDigits : Scan (List Char) := do
  if (← Scan.peek) = some '0' then
    Scan.char '0'
    return ['0']
  else digits isDecimal

/-- A number that fits into 64 bits with a sign. -/
def bounded (i : Int) : Scan Datum :=
  if -(Int.pow 2 63) ≤ i ∧ i < Int.pow 2 63 then return .signed i else failure

/-- A whole number behind the mark of its base. -/
def based (mark : String) (base : Nat) (test : Char → Bool) : Scan Datum := do
  Scan.exactly mark
  bounded (valueOf base (← digits test))

def decimal : Scan Datum := do
  let negative ← sign
  let n := valueOf 10 (← decimalDigits)
  bounded (if negative then -n else n)

def integer : Scan Datum :=
  based "0x" 16 isHexDigit <|> based "0o" 8 (fun c => '0' ≤ c && c ≤ '7') <|>
    based "0b" 2 (fun c => c == '0' || c == '1') <|> decimal

/-- The power of ten behind `e`. -/
def exponent : Scan Int := do
  let _ ← Scan.one fun c => c == 'e' || c == 'E'
  let negative ← sign
  let n := valueOf 10 (← digits isDecimal)
  return if negative then -n else n

/-- The digits behind a decimal point. -/
def fraction : Scan (List Char) := do
  Scan.char '.'
  digits isDecimal

def float : Scan Datum := do
  let negative ← sign
  let whole ← decimalDigits
  let (places, power) ← (do return ([], ← exponent)) <|>
    (do
      let places ← fraction
      return (places, (← Scan.optional exponent).getD 0))
  match Binary64.ofDecimal negative (valueOf 10 (whole ++ places)) (power - places.length) with
  | .infinite false => failure
  | x => return .float x

def special : Scan Datum := do
  let negative ← sign
  (do Scan.exactly "inf"; return .float (.infinite negative)) <|>
    (do Scan.exactly "nan"; return .float .nan)

/-! ## Moments -/

/-- A number of exactly so many digits within bounds, as it is written. -/
def fixed (width low high : Nat) : Scan (List Char) := do
  let ds ← Scan.times isDecimal width
  if low ≤ valueOf 10 ds ∧ valueOf 10 ds ≤ high then return ds else failure

def isLeap (year : Nat) : Bool := year % 4 == 0 && (year % 100 != 0 || year % 400 == 0)

def daysIn (year month : Nat) : Nat :=
  if month = 2 then (if isLeap year then 29 else 28)
  else if month = 4 ∨ month = 6 ∨ month = 9 ∨ month = 11 then 30
  else 31

def date : Scan (List Char) := do
  let year ← fixed 4 0 9999
  Scan.char '-'
  let month ← fixed 2 1 12
  Scan.char '-'
  let day ← fixed 2 1 (daysIn (valueOf 10 year) (valueOf 10 month))
  return year ++ '-' :: month ++ '-' :: day

/-- A fraction of a second: nine digits at most, the last of them no zero. -/
def secondFraction : Scan (List Char) := do
  Scan.char '.'
  let ds ← Scan.someWhile isDecimal
  let kept := ((ds.take 9).reverse.dropWhile (· == '0')).reverse
  return if kept.isEmpty then [] else '.' :: kept

def time : Scan (List Char) := do
  let hour ← fixed 2 0 23
  Scan.char ':'
  let minute ← fixed 2 0 59
  Scan.char ':'
  let second ← fixed 2 0 60
  let part ← Scan.optional secondFraction
  return hour ++ ':' :: minute ++ ':' :: second ++ part.getD []

/-- The distance from universal time. -/
def offset : Scan (List Char) :=
  (do
    let _ ← Scan.one fun c => c == 'Z' || c == 'z'
    return ['Z']) <|>
  (do
    let negative := (← Scan.one fun c => c == '+' || c == '-') == '-'
    let hour ← fixed 2 0 23
    Scan.char ':'
    let minute ← fixed 2 0 59
    let isZero := valueOf 10 (hour ++ minute) == 0
    return (if negative && !isZero then '-' else '+') :: hour ++ ':' :: minute)

/-- A time behind a date. -/
def dayTime : Scan (List Char) := do
  let _ ← Scan.one fun c => c == 'T' || c == 't' || c == ' '
  let t ← time
  let o ← Scan.optional offset
  return 'T' :: t ++ o.getD []

/-- The name under which a moment is kept. -/
def momentName : String := "$__toml_private_datetime"

/-- A date, a time, or both. -/
def moment : Scan Datum := do
  let shown ← (do
      let d ← date
      let t ← Scan.optional dayTime
      return d ++ t.getD []) <|> time
  return .table [(momentName, .text (String.ofList shown))]

def number : Scan Datum := moment <|> float <|> special <|> integer

end CommandBot.Toml
