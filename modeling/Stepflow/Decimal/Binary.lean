import Stepflow.Text.Basic

/-!
# Floating-point numbers

What a floating-point number is exactly, and how decimals are read as such numbers.
-/

/-!
## Binary floating-point numbers, exactly

A finite floating-point number is a sign and a magnitude `m * 2 ^ q` with whole `m` and `q`.
`Binary.ofFloat` reads the three off the bits, so that everything said about a number's decimal
text, or about sums and products of such numbers, can be said in whole numbers and fractions.

`Binary.nearest` rounds a fraction to the nearest number of this kind, a tie to the even neighbour;
`Decimal.roundDiv` is the same rule on whole numbers.
-/

namespace Stepflow.Decimal

/-- The whole number nearest to `num / den`, of two equally near ones the even one. -/
def roundDiv (num den : Nat) : Nat :=
  let q := num / den
  let r := num % den
  if 2 * r < den then q
  else if den < 2 * r then q + 1
  else if q % 2 = 0 then q else q + 1

/-- The number of binary digits. -/
def bitLength (n : Nat) : Nat := if n = 0 then 0 else n.log2 + 1

/-- A finite floating-point number: a sign and the magnitude `mant * 2 ^ exp`. -/
structure Binary where
  /-- Whether the sign is minus; zero has a sign too. -/
  negative : Bool
  /-- The whole part of the magnitude. -/
  mant : Nat
  /-- The power of two that scales it. -/
  exp : Int
  deriving DecidableEq, Repr

namespace Binary

/-- The sign, the magnitude and the scale of a finite floating-point number, off its bits. -/
def ofFloat (x : Float) : Binary :=
  let bits := x.toBits.toNat
  let field := bits / Nat.pow 2 52 % Nat.pow 2 11
  let frac := bits % Nat.pow 2 52
  { negative := Nat.pow 2 63 ≤ bits
    mant := if field = 0 then frac else frac + Nat.pow 2 52
    exp := if field = 0 then -1074 else Int.ofNat field - 1075 }

/-- The number as a fraction. -/
def toRat (b : Binary) : Rat :=
  let magnitude : Rat :=
    if 0 ≤ b.exp then ((b.mant * Nat.pow 2 b.exp.toNat : Nat) : Rat)
    else (b.mant : Rat) / ((Nat.pow 2 (-b.exp).toNat : Nat) : Rat)
  if b.negative then -magnitude else magnitude

/-- The exponent of the last binary place that a magnitude `num / den` keeps. -/
def lastPlace (num den : Nat) : Int :=
  let guess : Int := (bitLength num : Int) - (bitLength den : Int)
  -- `2 ^ (guess - 1) < num / den < 2 ^ (guess + 1)`; the top place is `guess` or `guess - 1`.
  let reaches : Bool :=
    if 0 ≤ guess then den * Nat.pow 2 guess.toNat ≤ num else den ≤ num * Nat.pow 2 (-guess).toNat
  let top := if reaches then guess else guess - 1
  max (top - 52) (-1074)

/-- The magnitude nearest to `num / den` among those with 53 binary places and no place below
`2 ^ -1074`; of two equally near ones the one with an even last place. -/
def nearestMagnitude (num den : Nat) : Nat × Int :=
  if num = 0 then (0, 0)
  else
    let e := lastPlace num den
    if 0 ≤ e then (roundDiv num (den * Nat.pow 2 e.toNat), e)
    else (roundDiv (num * Nat.pow 2 (-e).toNat) den, e)

/-- The fraction, rounded to the nearest floating-point number. -/
def nearest (r : Rat) : Rat :=
  let (m, e) := nearestMagnitude r.num.natAbs r.den
  toRat { negative := r.num < 0, mant := m, exp := e }

end Binary

/-!
## Reading decimals

`Parts` is a decimal as written: a sign, the digits before and after the point, and an exponent.
`Parts.toFloat` is the floating-point number nearest to it, infinite if there is none.

`readFloat?` reads the free form used on a command line and in plain scalars: digits on at least one
side of the point, an optional exponent, or a word for infinity or for "not a number".
-/

open Text

/-- A decimal as written. -/
structure Parts where
  /-- Whether a minus sign stands in front. -/
  negative : Bool
  /-- The digits before the point. -/
  whole : List Char
  /-- The digits after the point. -/
  fraction : List Char
  /-- The exponent. -/
  exponent : Int

/-- The floating-point number nearest to `digits * 10 ^ exp`, infinite above all finite ones. -/
def nearestFloat (digits : Nat) (exp : Int) : Float :=
  let size : Int := (Nat.toDigits 10 digits).length + exp
  if digits = 0 ∨ size < -400 then 0.0
  else if 400 < size then 1.0 / 0.0
  else if 0 ≤ exp then Float.ofScientific (digits * Nat.pow 10 exp.toNat) false 0
  else Float.ofScientific digits true (-exp).toNat

/-- The floating-point number nearest to a decimal. -/
def Parts.toFloat (p : Parts) : Float :=
  let magnitude := nearestFloat (digitsValue (p.whole ++ p.fraction))
    (p.exponent - p.fraction.length)
  if p.negative then -magnitude else magnitude

/-- The digits at the start of a text and the rest. -/
def spanDigits (cs : List Char) : List Char × List Char :=
  (cs.takeWhile isDigit, cs.dropWhile isDigit)

/-- The digits in front of something else are read. -/
theorem spanDigits_append {cs rest : List Char} (h : ∀ c ∈ cs, isDigit c = true)
    (hrest : ∀ c ∈ rest.head?, isDigit c = false) : spanDigits (cs ++ rest) = (cs, rest) := by
  have htake : rest.takeWhile isDigit = [] ∧ rest.dropWhile isDigit = rest := by
    cases rest with
    | nil => exact ⟨rfl, rfl⟩
    | cons c rest => simp [hrest c rfl]
  rw [spanDigits, List.takeWhile_append_of_pos h, List.dropWhile_append_of_pos h, htake.1, htake.2,
    List.append_nil]

/-- Reads an exponent, with its sign, that fills the text. -/
def readExponent? : List Char → Option Int
  | '+' :: rest => if !rest.isEmpty && rest.all isDigit then some (digitsValue rest) else none
  | '-' :: rest => if !rest.isEmpty && rest.all isDigit then some (-(digitsValue rest : Int)) else none
  | rest => if !rest.isEmpty && rest.all isDigit then some (digitsValue rest) else none

/-- Reads an unsigned decimal that fills the text. -/
def readUnsigned? (negative : Bool) (cs : List Char) : Option Float :=
  let (whole, rest) := spanDigits cs
  let (fraction, rest) := match rest with
    | '.' :: more => spanDigits more
    | _ => ([], rest)
  if whole.isEmpty && fraction.isEmpty then none
  else match rest with
    | [] => some (Parts.toFloat ⟨negative, whole, fraction, 0⟩)
    | c :: more =>
      if c = 'e' || c = 'E' then
        (readExponent? more).map fun e => Parts.toFloat ⟨negative, whole, fraction, e⟩
      else none

/-- Reads a floating-point number in its free form: an optional sign, then a decimal or one of the
words `inf`, `infinity` and `nan` in letters of either case. -/
def readFloat? (cs : List Char) : Option Float :=
  let (negative, body) := match cs with
    | '+' :: rest => (false, rest)
    | '-' :: rest => (true, rest)
    | _ => (false, cs)
  let word := String.ofList (body.map Char.toLower)
  if word = "inf" || word = "infinity" then
    some (if negative then -1.0 / 0.0 else 1.0 / 0.0)
  else if word = "nan" then some (0.0 / 0.0)
  else readUnsigned? negative body

end Stepflow.Decimal
