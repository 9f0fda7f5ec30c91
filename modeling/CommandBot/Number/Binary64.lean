/-
  Binary floating point numbers of 64 bits, in exact arithmetic. Every finite one is a multiple of
  the least positive one, so its magnitude is a natural number of such units. A decimal is rounded
  to the nearest number, a tie to the even one; a number is shown with the fewest digits that are
  rounded to it again, nearest to it among those, and without an exponent.
-/

namespace CommandBot

/-- A binary floating point number. -/
inductive Binary64 where
  | finite (negative : Bool) (units : Nat)
  | infinite (negative : Bool)
  | nan
deriving DecidableEq, Repr

namespace Binary64

/-- Bits of a significand. -/
def precision : Nat := 53

/-- There are `2 ^ scale` units in one. -/
def scale : Nat := 1074

/-- Magnitudes from here on are infinite. -/
def overflow : Nat := Nat.pow 2 (1024 + scale)

/-- A quotient rounded to the nearest natural number, a tie to the even one. -/
def roundDiv (n d : Nat) : Nat :=
  let q := n / d
  let r := n % d
  if 2 * r < d then q else if d < 2 * r then q + 1 else q + q % 2

/-- The bits of a magnitude below its significand. -/
def excess (units : Nat) : Nat := units.log2 + 1 - precision

/-- The number nearest to a quotient. -/
def ofRatio (negative : Bool) (n d : Nat) : Binary64 :=
  let s := excess (n * Nat.pow 2 scale / d)
  let units := roundDiv (n * Nat.pow 2 scale) (d * Nat.pow 2 s) * Nat.pow 2 s
  if overflow ≤ units then .infinite negative else .finite negative units

/-- The decimal places beyond which every magnitude is infinite, or zero. -/
def decimalLimit : Nat := 400

/-- The number nearest to `digits * 10 ^ exponent`. -/
def ofDecimal (negative : Bool) (digits : Nat) (exponent : Int) : Binary64 :=
  let places := (Nat.toDigits 10 digits).length + exponent
  if digits = 0 ∨ places < -decimalLimit then .finite negative 0
  else if decimalLimit < places then .infinite negative
  else
    match exponent with
    | .ofNat e => ofRatio negative (digits * Nat.pow 10 e) 1
    | .negSucc e => ofRatio negative digits (Nat.pow 10 (e + 1))

/-! ## Texts -/

/-- The reals that are rounded to a magnitude, in quarters of a unit: the least, the greatest, and
whether these two are rounded to it themselves. -/
def rounded (units : Nat) : Nat × Nat × Bool :=
  let s := excess units
  let isLeast := units = Nat.pow 2 (precision - 1 + s) ∧ 0 < s
  (4 * units - (if isLeast then Nat.pow 2 s else 2 * Nat.pow 2 s), 4 * units + 2 * Nat.pow 2 s,
    units / Nat.pow 2 s % 2 = 0)

/-- The quotient `n / d` on the grid of the multiples of `10 ^ e`: the multiple below it, and what
both sides are multiplied with so that grid and quotient compare as natural numbers. -/
def onGrid (n d : Nat) (e : Int) : Nat × Nat × Nat :=
  match e with
  | .ofNat e => (n / (d * Nat.pow 10 e), d * Nat.pow 10 e, 1)
  | .negSucc e => (n * Nat.pow 10 (e + 1) / d, d, Nat.pow 10 (e + 1))

/-- The multiple of `10 ^ e` that is rounded to a magnitude, the nearer one if there are two. -/
def hit? (units : Nat) (e : Int) : Option Nat :=
  let (low, high, closed) := rounded units
  let (below, gridScale, valueScale) := onGrid (4 * units) (Nat.pow 2 (scale + 2)) e
  let value := 4 * units * valueScale
  let isInside := fun c : Nat =>
    if closed then low * valueScale ≤ c * gridScale && c * gridScale ≤ high * valueScale
    else low * valueScale < c * gridScale && c * gridScale < high * valueScale
  let isNearer := value - below * gridScale ≤ (below + 1) * gridScale - value
  if isInside below && (isNearer || !isInside (below + 1)) then some below
  else if isInside (below + 1) then some (below + 1)
  else none

/-- The digits and the exponent of the first grid with a hit, from a coarse one on. -/
def shortestFrom (units : Nat) : Nat → Int → Nat × Int
  | 0, e => (0, e)
  | n + 1, e =>
    match hit? units e with
    | some c => if c = 0 then shortestFrom units n (e - 1) else (c, e)
    | none => shortestFrom units n (e - 1)

/-- A power of ten that is greater than the magnitude, and not by much. -/
def magnitudeBound (units : Nat) : Int :=
  if Nat.pow 2 scale ≤ units then ((Nat.toDigits 10 (units / Nat.pow 2 scale)).length : Int)
  else 2 - (Nat.toDigits 10 (Nat.pow 2 scale / units)).length

/-- The fewest digits that are rounded to a magnitude, and their exponent. -/
def shortest (units : Nat) : Nat × Int := shortestFrom units 20 (magnitudeBound units)

/-- Digits with a power of ten, written without an exponent. -/
def positional (digits : List Char) (e : Int) : List Char :=
  match e with
  | .ofNat e => digits ++ List.replicate e '0'
  | .negSucc e =>
    if e + 1 < digits.length then
      digits.take (digits.length - (e + 1)) ++ '.' :: digits.drop (digits.length - (e + 1))
    else '0' :: '.' :: List.replicate (e + 1 - digits.length) '0' ++ digits

def sign (negative : Bool) : String := if negative then "-" else ""

def shown : Binary64 → String
  | .nan => "NaN"
  | .infinite negative => sign negative ++ "inf"
  | .finite negative units =>
    sign negative ++
      if units = 0 then "0"
      else
        let (digits, e) := shortest units
        String.ofList (positional (Nat.toDigits 10 digits) e)

theorem ofDecimal_zero (negative : Bool) (e : Int) : ofDecimal negative 0 e = .finite negative 0 := by
  simp [ofDecimal]

end Binary64

end CommandBot
