import Stepflow.Decimal.Binary
import Stepflow.Yaml.Token

/-!
# What YAML scalars mean

A plain scalar is null, a truth value, a number or a text, by the core schema: the words `null`,
`true` and `false` in three spellings, whole numbers in base 2, 8, 10 or 16, decimals, and the words
for infinity and for "not a number". A decimal number with a zero in front is a text. A tag of the
core schema forces the meaning; any other scalar is a text.

`Written.meaning?` gives what a scalar means by itself. The other readers answer a question of a
fixed kind, and are more lenient: any scalar answers when asked for its text.
-/

/-!
## Scalars

The undivided pieces of a document. Unlike a value, a scalar may be a number that is not finite.
-/

namespace Stepflow

/-- An undivided piece of a document. -/
inductive Scalar where
  /-- Nothing. -/
  | null
  /-- A truth value. -/
  | bool (b : Bool)
  /-- A whole number. -/
  | int (n : Int)
  /-- A zero with a minus sign. It counts as zero, but is not the number of a field or a word. -/
  | negativeZero
  /-- A floating-point number. -/
  | float (x : Float)
  /-- A text. -/
  | text (s : String)

end Stepflow

namespace Stepflow.Yaml

open Text

/-- A scalar as written. -/
structure Written where
  /-- The text. -/
  text : String
  /-- How it is written. -/
  style : Style := .plain
  /-- The tag, with its handle expanded. -/
  tag : Option Tag := none
  deriving DecidableEq, Repr

/-- Whether a text is one of the spellings of null. -/
def isNullWord (s : String) : Bool := ["null", "Null", "NULL", "~"].contains s

/-- The truth value that a text spells. -/
def readBool? (s : String) : Option Bool :=
  if ["true", "True", "TRUE"].contains s then some true
  else if ["false", "False", "FALSE"].contains s then some false
  else none

/-- The number that digits of a base write, if there is at least one and all are digits of it. -/
def readDigits? (base : Nat) (cs : List Char) : Option Nat :=
  if cs.isEmpty then none
  else cs.foldlM (fun n c => (Json.hexValue? c).bind fun d =>
    if d < base then some (base * n + d) else none) 0

/-- Whether a text is a decimal number with a zero in front, which is a text. -/
def isZeroPadded (cs : List Char) : Bool :=
  let digits := match cs with
    | '-' :: rest => rest
    | '+' :: rest => rest
    | _ => cs
  match digits with
  | '0' :: c :: rest => (c :: rest).all isDigit
  | _ => false

/-- The digits behind the mark of a base other than ten, and the base. -/
def splitBase? : List Char → Option (Nat × List Char)
  | '0' :: 'x' :: rest => some (16, rest)
  | '0' :: 'o' :: rest => some (8, rest)
  | '0' :: 'b' :: rest => some (2, rest)
  | _ => none

/-- Reads a whole number that is not negative. -/
def readUnsigned? (cs : List Char) : Option Nat :=
  let body := match cs with
    | '+' :: rest => rest
    | _ => cs
  let based := (splitBase? body).bind fun (base, digits) => readDigits? base digits
  match based with
  | some n => some n
  | none => if isZeroPadded cs then none else readDigits? 10 body

/-- Reads a whole number with a minus sign. -/
def readNegative? (cs : List Char) : Option Int :=
  match cs with
  | '-' :: body =>
    let based := (splitBase? body).bind fun (base, digits) => readDigits? base digits
    match based with
    | some n => some (-(n : Int))
    | none => if isZeroPadded cs then none else (readDigits? 10 body).map fun n => -(n : Int)
  | _ => none


/-- Reads a decimal number, or a word for one that is not finite. -/
def readFloat? (s : String) : Option Float :=
  let cs := s.toList
  let body := match cs with
    | '+' :: rest => rest
    | _ => cs
  if cs.head? = some '+' && (body.head? = some '+' || body.head? = some '-') then none
  else if [".inf", ".Inf", ".INF"].contains (String.ofList body) then some (1.0 / 0.0)
  else if ["-.inf", "-.Inf", "-.INF"].contains s then some (-1.0 / 0.0)
  else if [".nan", ".NaN", ".NAN"].contains s then some (0.0 / 0.0)
  else (Decimal.readFloat? body).filter Float.isFinite

/-- What a whole number means: a number of 64 bits is that number, one of up to 128 bits has no
meaning, and one beyond that is not read as a whole number at all. -/
def intMeaning? (n : Int) : Option (Option Scalar) :=
  if -Int.ofNat (Nat.pow 2 63) ≤ n ∧ n < Int.ofNat (Nat.pow 2 64) then some (some (.int n))
  else if -Int.ofNat (Nat.pow 2 127) ≤ n ∧ n < Int.ofNat (Nat.pow 2 128) then some none
  else none

/-- What a text means that is read as a whole number. -/
def wholeMeaning? (cs : List Char) : Option (Option Scalar) :=
  match readUnsigned? cs with
  | some n => intMeaning? n
  | none =>
    match readNegative? cs with
    | some n => if n = 0 then some (some .negativeZero) else intMeaning? n
    | none => none

/-- What a plain text means by the core schema. -/
def plainMeaning? (s : String) : Option Scalar :=
  if s = "" || isNullWord s then some .null
  else match readBool? s with
    | some b => some (.bool b)
    | none =>
      match wholeMeaning? s.toList with
      | some meaning => meaning
      | none =>
        if isZeroPadded s.toList then some (.text s)
        else match readFloat? s with
          | some x => some (.float x)
          | none => some (.text s)

namespace Written

/-- Whether a scalar without a tag of its own may be read as something other than a text. -/
def isOpen (w : Written) (name : String) : Bool :=
  w.style = .plain || (w.style = .literal && w.tag = some (Tag.core name))

/-- What a scalar means by itself. -/
def meaning? (w : Written) : Option Scalar :=
  if isLocalTag w.tag then none
  else if w.tag = some (Tag.core "bool") then (readBool? w.text).map .bool
  else if w.tag = some (Tag.core "int") then
    match wholeMeaning? w.text.toList with
    | some meaning => meaning
    | none => none
  else if w.tag = some (Tag.core "float") then (readFloat? w.text).map .float
  else if w.tag = some (Tag.core "null") then if isNullWord w.text then some .null else none
  else if w.tag.all Tag.isMarked && w.style = .plain then plainMeaning? w.text
  else some (.text w.text)

/-- Whether a scalar stands for a missing value; `none` if its tag says so and its text does not. -/
def isAbsent? (w : Written) : Option Bool :=
  if w.style ≠ .plain then some false
  else match w.tag with
    | some t =>
      if t = Tag.core "null" then if isNullWord w.text then some true else none
      else some false
    | none => some (w.text = "" || isNullWord w.text)

/-- The truth value that a scalar gives when asked for one. -/
def bool? (w : Written) : Option Bool := if w.isOpen "bool" then readBool? w.text else none

/-- The whole number that a scalar gives when asked for one that is not negative. -/
def nat? (w : Written) : Option Nat := if w.isOpen "int" then readUnsigned? w.text.toList else none

/-- The floating-point number that a scalar gives when asked for one. -/
def float? (w : Written) : Option Float := if w.isOpen "float" then readFloat? w.text else none

/-- Whether a scalar counts as an empty collection when asked for a collection. -/
def isEmptyCollection (w : Written) : Bool := w.text = "" && w.style = .plain

end Written

end Stepflow.Yaml
