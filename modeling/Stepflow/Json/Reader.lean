import Stepflow.Decimal.Binary
import Stepflow.Json.Text
import Stepflow.Value

/-!
# Reading JSON text

`Json.read?` turns a text into a `Json`, which still shows what was written: an object keeps
repeated names, and a number or a text that is well formed but has no value (a number beyond the
finite ones, half of a pair of code units) is kept as such, since a reader that never looks at it is
not disturbed by it.

`Json.value?` is the plain reading of a whole text as a value: of two fields of one name the later
one stays, everything must have a value, and lists and objects may be nested 127 deep.
-/

/-!
## Numbers

A number without point and exponent that a value can hold as a whole number is that whole number.
Every other number is a floating-point number, and so is `-0`. Its value is reckoned in two steps
that both round: as many digits as fit into 64 bits make a floating-point number, which is then
multiplied or divided by a power of ten. A number beyond the finite ones has no value.
-/

namespace Stepflow.Json

open Text Decimal

/-- A number as written. -/
structure NumberLiteral where
  /-- Whether a minus sign stands in front. -/
  negative : Bool
  /-- The digits before the point. -/
  whole : List Char
  /-- The digits after the point, if there is a point. -/
  fraction : Option (List Char)
  /-- The sign and the digits of the exponent, if there is one. -/
  exponent : Option (Bool × List Char)
  deriving DecidableEq, Repr

/-- The first number that 64 bits cannot hold. -/
def wordBound : Nat := Nat.pow 2 64

/-- Appends digits to a number as long as it fits into 64 bits: the number, the count of digits
taken and the count of digits left. -/
def takeDigits (n : Nat) (taken : Nat) : List Char → Nat × Nat × Nat
  | [] => (n, taken, 0)
  | c :: rest =>
    let next := 10 * n + digitsValue [c]
    if next < wordBound then takeDigits next (taken + 1) rest
    else (n, taken, rest.length + 1)

/-- A floating-point number times a power of ten, in as many steps as powers of ten up to `10 ^ 308`
need; `none` beyond the finite numbers. -/
def scaleTen : Nat → Float → Int → Option Float
  | 0, _, _ => some 0.0
  | fuel + 1, x, exp =>
    if exp.natAbs ≤ 308 then
      let power := Float.ofScientific 1 false exp.natAbs
      if 0 ≤ exp then
        if (x * power).isInf then none else some (x * power)
      else some (x / power)
    else if x == 0.0 then some x
    else if 0 ≤ exp then none
    else scaleTen fuel (x / Float.ofScientific 1 false 308) (exp + 308)

/-- The significand rounded to a floating-point number, scaled, and with its sign. -/
def floatOfParts (negative : Bool) (significand : Nat) (exp : Int) : Option Float :=
  (scaleTen 8 (Float.ofNat significand) exp).map fun x => if negative then -x else x

/-- The greatest exponent that is read as one. -/
def exponentBound : Nat := Nat.pow 2 31

/-- The value of a number, if it has one. -/
def NumberLiteral.value? (l : NumberLiteral) : Option Value :=
  let (significand, _, unused) := takeDigits 0 0 l.whole
  match l.fraction, l.exponent with
  | none, none =>
    if unused ≠ 0 then (floatOfParts l.negative significand unused).map .float
    else if !l.negative then some (.int significand)
    else if significand = 0 ∨ Nat.pow 2 63 < significand then
      some (.float (-(Float.ofNat significand)))
    else some (.int (-(significand : Int)))
  | fraction, exponent =>
    let (significand, taken, _) := takeDigits significand 0 (fraction.getD [])
    let place : Int := (unused : Int) - taken
    match exponent with
    | none => (floatOfParts l.negative significand place).map .float
    | some (minus, digits) =>
      if exponentBound ≤ digitsValue digits then
        if significand ≠ 0 && !minus then none
        else some (.float (if l.negative then -0.0 else 0.0))
      else
        let shift : Int := if minus then -(digitsValue digits : Int) else digitsValue digits
        (floatOfParts l.negative significand (place + shift)).map .float

/-- Reads a number off the front of a text. A leading zero stands alone; point and exponent need a
digit behind them. -/
def readNumber? (cs : List Char) : Option (NumberLiteral × List Char) := do
  let (negative, cs) := match cs with
    | '-' :: rest => (true, rest)
    | _ => (false, cs)
  let (whole, rest) := spanDigits cs
  if whole.isEmpty || (whole.head? == some '0' && whole.length ≠ 1) then none
  else
    let (fraction, rest) ← match rest with
      | '.' :: more =>
        let (digits, rest) := spanDigits more
        if digits.isEmpty then none else some (some digits, rest)
      | _ => some (none, rest)
    let (exponent, rest) ← match rest with
      | c :: more =>
        if c = 'e' || c = 'E' then
          let (minus, more) := match more with
            | '+' :: r => (false, r)
            | '-' :: r => (true, r)
            | _ => (false, more)
          let (digits, rest) := spanDigits more
          if digits.isEmpty then none else some (some (minus, digits), rest)
        else some (none, rest)
      | [] => some (none, rest)
    some (⟨negative, whole, fraction, exponent⟩, rest)

end Stepflow.Json

/-! ## Texts -/

namespace Stepflow

/-- A JSON text, read. -/
inductive Json where
  /-- The word `null`. -/
  | null
  /-- One of the words `true` and `false`. -/
  | bool (b : Bool)
  /-- A number, with its value if it has one. -/
  | number (value : Option Value)
  /-- A text, with its characters if they make sense. -/
  | text (value : Option String)
  /-- A list. -/
  | array (items : List Json)
  /-- An object, its fields in the order in which they were written. -/
  | object (fields : List (Option String × Json))

namespace Json

/-- The four characters that JSON text may hold between its words. -/
def isSpace (c : Char) : Bool := c = ' ' || c = '\n' || c = '\t' || c = '\r'

/-- The text from its first character that is not a space. -/
def skipSpace (cs : List Char) : List Char := cs.dropWhile isSpace

/-- Reads a text whose opening quote has been read. -/
def readText? (cs : List Char) : Option (Option String × List Char) :=
  (readPieces? cs).map fun (ps, rest) => ((decodePieces? ps).map String.ofList, rest)

/-- Reads one of the three words. -/
def readWord? (cs : List Char) : Option (Json × List Char) :=
  match Text.stripPrefix? ['n', 'u', 'l', 'l'] cs with
  | some rest => some (.null, rest)
  | none =>
    match Text.stripPrefix? ['t', 'r', 'u', 'e'] cs with
    | some rest => some (.bool true, rest)
    | none => (Text.stripPrefix? ['f', 'a', 'l', 's', 'e'] cs).map ((.bool false, ·))

mutual

/-- Reads a value off the front of a text; `fuel` bounds the number of its parts. -/
def readValue? : Nat → List Char → Option (Json × List Char)
  | 0, _ => none
  | fuel + 1, cs =>
    match skipSpace cs with
    | '[' :: rest =>
      match skipSpace rest with
      | ']' :: rest => some (.array [], rest)
      | rest => (readItems? fuel rest).map fun (items, rest) => (.array items, rest)
    | '{' :: rest =>
      match skipSpace rest with
      | '}' :: rest => some (.object [], rest)
      | rest => (readFields? fuel rest).map fun (fields, rest) => (.object fields, rest)
    | '"' :: rest => (readText? rest).map fun (s, rest) => (.text s, rest)
    | c :: rest =>
      if c = '-' || Text.isDigit c then
        (readNumber? (c :: rest)).map fun (n, rest) => (.number n.value?, rest)
      else readWord? (c :: rest)
    | [] => none

/-- Reads the members of a list up to its closing bracket. -/
def readItems? : Nat → List Char → Option (List Json × List Char)
  | 0, _ => none
  | fuel + 1, cs => do
    let (item, rest) ← readValue? fuel cs
    match skipSpace rest with
    | ',' :: rest => (readItems? fuel rest).map fun (items, rest) => (item :: items, rest)
    | ']' :: rest => some ([item], rest)
    | _ => none

/-- Reads the fields of an object up to its closing brace. -/
def readFields? : Nat → List Char → Option (List (Option String × Json) × List Char)
  | 0, _ => none
  | fuel + 1, cs =>
    match skipSpace cs with
    | '"' :: rest => do
      let (name, rest) ← readText? rest
      match skipSpace rest with
      | ':' :: rest =>
        let (item, rest) ← readValue? fuel rest
        match skipSpace rest with
        | ',' :: rest =>
          (readFields? fuel rest).map fun (fields, rest) => ((name, item) :: fields, rest)
        | '\x7d' :: rest => some ([(name, item)], rest)
        | _ => none
      | _ => none
    | _ => none

end

/-- Reads a whole text. -/
def read? (cs : List Char) : Option Json :=
  match readValue? (cs.length + 1) cs with
  | some (j, rest) => if (skipSpace rest).isEmpty then some j else none
  | none => none

/-- How many lists and objects may contain one another. -/
def maxDepth : Nat := 127

mutual

/-- The value of what was read, if all of it has one and `room` more levels hold it. -/
def toValue? (room : Nat) : Json → Option Value
  | .null => some .null
  | .bool b => some (.bool b)
  | .number v => v
  | .text s => s.map .str
  | .array items =>
    match room with
    | 0 => none
    | room + 1 => (toValues? room items).map .arr
  | .object fields =>
    match room with
    | 0 => none
    | room + 1 => (toFields? room fields).map fun fs => .obj (Table.ofList fs)

/-- The values of the members of a list. -/
def toValues? (room : Nat) : List Json → Option (List Value)
  | [] => some []
  | j :: rest => do
    let v ← toValue? room j
    let vs ← toValues? room rest
    some (v :: vs)

/-- The names and values of the fields of an object. -/
def toFields? (room : Nat) : List (Option String × Json) → Option (List (String × Value))
  | [] => some []
  | (name, j) :: rest => do
    let name ← name
    let v ← toValue? room j
    let fs ← toFields? room rest
    some ((name, v) :: fs)

end

/-- The value that a whole text writes. -/
def value? (s : String) : Option Value := (read? s.toList).bind (toValue? maxDepth)

end Json

end Stepflow
