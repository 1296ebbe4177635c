import Stepflow.Decimal.Binary

/-!
# The shortest decimal of a floating-point number

Every decimal in a certain interval around a floating-point number reads back as that number; the
ends belong to the interval exactly if the magnitude is even. The text of a number uses the fewest
digits with which some decimal lies in the interval, and of the decimals with that many digits the
one nearest to the number.

`Layout` holds what is left to a format: which exponents are written positionally, and how the
exponent of the others is written.
-/

namespace Stepflow.Decimal

/-- The decimals that read back as a number, and the number itself, as multiples of
`2 ^ unit`: from `low` to `high`, the ends included if `closed`. -/
structure Interval where
  /-- The lower end. -/
  low : Nat
  /-- The number. -/
  mid : Nat
  /-- The upper end. -/
  high : Nat
  /-- The exponent of the common unit. -/
  unit : Int
  /-- Whether the ends read back as the number too. -/
  closed : Bool

namespace Interval

/-- The interval of the magnitude `mant * 2 ^ exp`. Below a power of two the next smaller number is
only half as far away as the next larger one, unless the numbers there are as dense as they get. -/
def ofBinary (b : Binary) : Interval where
  low := if b.mant = Nat.pow 2 52 ∧ -1074 < b.exp then 4 * b.mant - 1 else 4 * b.mant - 2
  mid := 4 * b.mant
  high := 4 * b.mant + 2
  unit := b.exp - 2
  closed := b.mant % 2 = 0

/-- The three numbers and a common denominator, with the unit multiplied out. -/
def scaled (i : Interval) : Nat × Nat × Nat × Nat :=
  if 0 ≤ i.unit then
    let s := Nat.pow 2 i.unit.toNat
    (i.low * s, i.mid * s, i.high * s, 1)
  else (i.low, i.mid, i.high, Nat.pow 2 (-i.unit).toNat)

end Interval

/-- The number of decimal digits. -/
def digitCount (n : Nat) : Nat := (Nat.toDigits 10 n).length

/-- The number of digits in front of the decimal point of `num / den`, which is zero or negative for
numbers below one: the least `e` with `num / den < 10 ^ e`. -/
def pointPlace (num den : Nat) : Int :=
  let guess : Int := (digitCount num : Int) - (digitCount den : Int)
  -- `10 ^ (guess - 1) < num / den < 10 ^ (guess + 1)`.
  let below : Bool :=
    if 0 ≤ guess then num < den * Nat.pow 10 guess.toNat else num * Nat.pow 10 (-guess).toNat < den
  if below then guess else guess + 1

/-- A decimal number `digits * 10 ^ exp`. -/
structure Digits where
  /-- The digits, read as one whole number. -/
  digits : Nat
  /-- The power of ten that scales them. -/
  exp : Int
  deriving DecidableEq, Repr

/-- The decimal with grid exponent `exp` that is nearest to the number, if one of the two next to
the number reads back as it. -/
def nearestOnGrid? (low mid high den : Nat) (closed : Bool) (exp : Int) : Option Nat :=
  let up (n : Nat) : Nat := if 0 ≤ exp then n else n * Nat.pow 10 (-exp).toNat
  let step : Nat := if 0 ≤ exp then den * Nat.pow 10 exp.toNat else den
  let inside (d : Nat) : Bool :=
    if closed then up low ≤ d * step && d * step ≤ up high
    else up low < d * step && d * step < up high
  let nearest := roundDiv (up mid) step
  let below := up mid / step
  if inside nearest then some nearest
  else if inside below then some below
  else if inside (below + 1) then some (below + 1)
  else none

/-- Tries the grids of 17 - `left`, … , 17 digits. -/
def searchGrids (low mid high den : Nat) (closed : Bool) (place : Int) : Nat → Digits
  | 0 => ⟨0, 0⟩
  | left + 1 =>
    let exp := place - (17 - left : Int)
    match nearestOnGrid? low mid high den closed exp with
    | some d => ⟨d, exp⟩
    | none => searchGrids low mid high den closed place left

/-- Moves the zeros at the end of the digits into the exponent. -/
def Digits.strip (d : Digits) : Digits :=
  let rec go : Nat → Nat → Int → Digits
    | 0, n, e => ⟨n, e⟩
    | fuel + 1, n, e => if n ≠ 0 ∧ n % 10 = 0 then go fuel (n / 10) (e + 1) else ⟨n, e⟩
  go 20 d.digits d.exp

/-- The shortest decimal that reads back as a magnitude. -/
def shortest (b : Binary) : Digits :=
  if b.mant = 0 then ⟨0, 0⟩
  else
    let i := Interval.ofBinary b
    let (low, mid, high, den) := i.scaled
    (searchGrids low mid high den i.closed (pointPlace mid den) 17).strip

/-- What a format decides about the text of a number. Between the two exponents, both included, the
number is written positionally, and always with a point. -/
structure Layout where
  /-- The least exponent of the leading digit that is written positionally. -/
  least : Int
  /-- The greatest exponent of the leading digit that is written positionally. -/
  greatest : Int
  /-- Whether an exponent that is not negative has a plus sign. -/
  plus : Bool

/-- The magnitude of a decimal in a layout. -/
def Layout.magnitude (l : Layout) (d : Digits) : String :=
  let text := Nat.toDigits 10 d.digits
  let lead : Int := (text.length : Int) - 1 + d.exp
  if l.least ≤ lead ∧ lead ≤ l.greatest then
    if 0 ≤ d.exp then String.ofList (text ++ List.replicate d.exp.toNat '0' ++ ['.', '0'])
    else if 0 ≤ lead then
      String.ofList (text.take (lead.toNat + 1) ++ '.' :: text.drop (lead.toNat + 1))
    else String.ofList ('0' :: '.' :: (List.replicate (-lead - 1).toNat '0' ++ text))
  else
    let mantissa := match text with
      | [] => []
      | [c] => [c]
      | c :: rest => c :: '.' :: rest
    let sign := if lead < 0 then "-" else if l.plus then "+" else ""
    String.ofList mantissa ++ "e" ++ sign ++ toString lead.natAbs

/-- The text of a finite floating-point number. -/
def Layout.render (l : Layout) (x : Float) : String :=
  let b := Binary.ofFloat x
  let magnitude := l.magnitude (shortest b)
  if b.negative then "-" ++ magnitude else magnitude

end Stepflow.Decimal
