import Stepflow.Decimal.Binary
import Stepflow.Decimal.Shortest
import Stepflow.Shell.Calculation
import Stepflow.Shell.Command

/-!
# Formatted output

A format is text with escapes and directives. A directive takes an argument and writes it as a text, a
number, or a decimal, with a least width and a precision. The format is used again as long as there are
arguments left.
-/

/-!
## Escapes in texts that are written

Behind a reverse solidus a letter stands for a control character, and up to three octal digits for a
byte. In texts with free escapes the digits may follow a zero, and one escape ends the whole output.
-/

namespace Stepflow.Shell.Escapes

/-- The value of an octal digit. -/
def octalDigit? (c : Char) : Option Nat :=
  if '0' ≤ c && c ≤ '7' then some (c.toNat - '0'.toNat) else none

/-- The character that a letter behind a reverse solidus stands for. -/
def named? (c : Char) : Option Char :=
  match c with
  | '\\' => some '\\'
  | 'a' => some '\x07'
  | 'b' => some '\x08'
  | 'f' => some '\x0c'
  | 'n' => some '\n'
  | 'r' => some '\r'
  | 't' => some '\t'
  | 'v' => some '\x0b'
  | _ => none

/-- Reads up to `left` octal digits; gives their value and what follows. -/
def octal : (left : Nat) → Nat → List Char → Nat × List Char
  | left + 1, value, c :: rest =>
    match octalDigit? c with
    | some d => octal left (value * 8 + d) rest
    | none => (value, c :: rest)
  | _, value, cs => (value, cs)

/-- The character of a byte. -/
def byteChar (n : Nat) : Char := Char.ofNat (n % 256)

/-- Reads an escape behind its reverse solidus; one that is none stands for the reverse solidus. -/
def read (cs : List Char) : Char × List Char :=
  match cs with
  | [] => ('\\', [])
  | c :: rest =>
    match octalDigit? c, named? c with
    | some _, _ =>
      let (value, rest) := octal 3 0 cs
      (byteChar value, rest)
    | none, some d => (d, rest)
    | none, none => ('\\', cs)

/-- Reads an escape of the free kind. -/
def readFree (cs : List Char) : Char × List Char :=
  match cs with
  | '0' :: c :: rest => if (octalDigit? c).isSome then read (c :: rest) else read cs
  | cs => read cs

/-- The characters that a text with free escapes stands for, and whether it ends the output. -/
def expand : Nat → List Char → List Char × Bool
  | 0, _ => ([], false)
  | n + 1, cs =>
    match cs with
    | [] => ([], false)
    | '\\' :: 'c' :: _ => ([], true)
    | '\\' :: rest =>
      let (c, rest) := readFree rest
      let (cs, ends) := expand n rest
      (c :: cs, ends)
    | c :: rest =>
      let (cs, ends) := expand n rest
      (c :: cs, ends)

/-- The text that a text with free escapes stands for, and whether it ends the output. -/
def expandText (s : String) : String × Bool :=
  let (cs, ends) := expand (s.length + 1) s.toList
  (String.ofList cs, ends)

end Stepflow.Shell.Escapes

/-! ## Formats -/

namespace Stepflow.Shell.Format

/-- How a directive lays out what it writes. -/
structure Style where
  /-- The marks behind the percent sign. -/
  flags : List Char := []
  /-- The least number of characters. -/
  width : Nat := 0
  /-- The precision. -/
  precision : Option Nat := none

namespace Style

/-- Whether a mark was given. -/
def has (s : Style) (c : Char) : Bool := s.flags.contains c

/-- Fills a text up to the least width. -/
def pad (s : Style) (text : List Char) : List Char :=
  let missing := s.width - text.length
  if s.has '-' then text ++ List.replicate missing ' ' else List.replicate missing ' ' ++ text

/-- Fills a number up to the least width; zeros stand behind its sign. -/
def padNumber (s : Style) (zeros : Bool) (sign body : List Char) : List Char :=
  if zeros && s.has '0' && !s.has '-' then
    sign ++ List.replicate (s.width - sign.length - body.length) '0' ++ body
  else s.pad (sign ++ body)

/-- The sign that is written for a number. -/
def sign (s : Style) (negative : Bool) : List Char :=
  if negative then ['-'] else if s.has '+' then ['+'] else if s.has ' ' then [' '] else []

/-- A text, cut to the precision. -/
def text (s : Style) (cs : List Char) : List Char :=
  s.pad (match s.precision with
    | some n => cs.take n
    | none => cs)

end Style

/-! ### Whole numbers -/

/-- Digits, filled up to the precision; nothing is left of zero without precision. -/
def wholeDigits (s : Style) (digits : List Char) : List Char :=
  match s.precision with
  | none => digits
  | some p =>
    let digits := if p = 0 && digits = ['0'] then [] else digits
    List.replicate (p - digits.length) '0' ++ digits

/-- A whole number with a sign. -/
def whole (s : Style) (n : Int) : List Char :=
  s.padNumber s.precision.isNone (s.sign (n < 0)) (wholeDigits s (Nat.toDigits 10 n.natAbs))

/-- A whole number without a sign, in the base that a letter asks for. -/
def natural (s : Style) (letter : Char) (n : Nat) : List Char :=
  let base := if letter = 'o' then 8 else if letter = 'u' then 10 else 16
  let digits := Nat.toDigits base n
  let digits := wholeDigits s (if letter = 'X' then digits.map Char.toUpper else digits)
  let digits :=
    if letter = 'o' && s.has '#' && digits.head? ≠ some '0' then '0' :: digits else digits
  let mark := if s.has '#' && n ≠ 0 && (letter = 'x' || letter = 'X') then ['0', letter] else []
  s.padNumber s.precision.isNone mark digits

/-! ### Decimals -/

/-- The precision of a decimal for which none is given. -/
def usualPrecision : Nat := 6

/-- A whole number of at least some digits. -/
def atLeast (digits n : Nat) : List Char :=
  let cs := Nat.toDigits 10 n
  List.replicate (digits - cs.length) '0' ++ cs

/-- Puts a point before the last `places` digits; `always` says that it stands also if there are none. -/
def withPoint (places : Nat) (always : Bool) (digits : List Char) : List Char :=
  let front := digits.take (digits.length - places)
  if places = 0 then if always then front ++ ['.'] else front
  else front ++ '.' :: digits.drop (digits.length - places)

/-- A fraction with a number of places behind the point. -/
def positional (s : Style) (num den places : Nat) : List Char :=
  withPoint places (s.has '#') (atLeast (places + 1) (Decimal.roundDiv (num * Nat.pow 10 places) den))

/-- The first digits of a fraction, `places` of them behind the first, and its power of ten. -/
def scientificDigits (num den places : Nat) : Nat × Int :=
  if num = 0 then (0, 0)
  else
    let e := Decimal.pointPlace num den - 1
    let shift : Int := places - e
    let n := if 0 ≤ shift then Decimal.roundDiv (num * Nat.pow 10 shift.toNat) den
      else Decimal.roundDiv num (den * Nat.pow 10 (-shift).toNat)
    if n < Nat.pow 10 (places + 1) then (n, e) else (n / 10, e + 1)

/-- A power of ten behind a letter. -/
def exponentText (letter : Char) (e : Int) : List Char :=
  letter :: (if e < 0 then '-' else '+') :: atLeast 2 e.natAbs

/-- A fraction with a power of ten. -/
def scientific (s : Style) (letter : Char) (num den places : Nat) : List Char :=
  let (n, e) := scientificDigits num den places
  withPoint places (s.has '#') (atLeast (places + 1) n) ++ exponentText letter e

/-- Drops zeros at the end of a decimal, and its point if nothing is left behind it. -/
def dropZeros (cs : List Char) : List Char :=
  if cs.contains '.' then
    ((cs.reverse.dropWhile (· = '0')).dropWhile (· = '.')).reverse
  else cs

/-- A fraction in the shorter of the two ways. -/
def general (s : Style) (letter : Char) (num den : Nat) : List Char :=
  let p := max 1 (s.precision.getD usualPrecision)
  let (n, e) := scientificDigits num den (p - 1)
  let strip := fun cs => if s.has '#' then cs else dropZeros cs
  if e < -4 || (p : Int) ≤ e then
    strip (withPoint (p - 1) (s.has '#') (atLeast p n)) ++ exponentText letter e
  else strip (positional s num den ((p : Int) - 1 - e).toNat)

/-- A decimal in the way that a letter asks for. -/
def decimal (s : Style) (letter : Char) (x : Float) : List Char :=
  let small := letter.toLower
  let case := fun (word : String) => if letter.isUpper then word.toList.map Char.toUpper else word.toList
  let b := Decimal.Binary.ofFloat x
  if x.isNaN then s.padNumber false (s.sign b.negative) (case "nan")
  else if x.isInf then s.padNumber false (s.sign b.negative) (case "inf")
  else
    let (num, den) :=
      if 0 ≤ b.exp then (b.mant * Nat.pow 2 b.exp.toNat, 1) else (b.mant, Nat.pow 2 (-b.exp).toNat)
    let places := s.precision.getD usualPrecision
    let e := if letter.isUpper then 'E' else 'e'
    let body :=
      if small = 'f' then positional s num den places
      else if small = 'e' then scientific s e num den places
      else general s e num den
    s.padNumber true (s.sign b.negative) body

/-! ### Arguments -/

/-- Where the writing of a format stands. -/
structure State where
  /-- The arguments left. -/
  arguments : List String
  /-- Whether an argument was taken. -/
  took : Bool := false
  /-- The number with which the command will end. -/
  status : Nat := 0
  /-- Whether the output has ended. -/
  ended : Bool := false

/-- A step of writing. -/
abbrev Writing := StateT State Act

/-- Writes characters. -/
def emit (cs : List Char) : Writing Unit := Act.say (String.ofList cs)

/-- Takes an argument, if there is one. -/
def argument? : Writing (Option String) := do
  let s ← get
  match s.arguments with
  | [] => return none
  | a :: rest =>
    set { s with arguments := rest, took := true }
    return some a

/-- Complains about an argument. -/
def warn (message : String) : Writing Unit := do
  Act.complain message
  modify fun s => { s with status := 1 }

/-- Complains if something follows a number in an argument. -/
def checkRest (a : String) (found : Bool) (rest : List Char) : Writing Unit := do
  if !rest.isEmpty then
    if found then warn (a ++ ": not completely converted")
    else warn (a ++ ": expected numeric value")

/-- Takes an argument as a number; a quote in front stands for the number of the next character. -/
def number (low high : Int) : Writing Int := do
  match ← argument? with
  | none => return 0
  | some a =>
    match a.toList with
    | c :: rest =>
      if c = '"' || c = '\'' then return ((rest.head?.map Char.toNat).getD 0 : Nat)
      match Calculation.signed? false (c :: rest) with
      | none =>
        checkRest a false (c :: rest)
        return 0
      | some (n, rest) =>
        checkRest a true rest
        if rest.isEmpty && (n < low || high < n) then warn (a ++ ": Numerical result out of range")
        return max low (min high n)
    | [] => return 0

/-- Takes an argument as a number that may be negative. -/
def signedNumber : Writing Int := number Calculation.least Calculation.greatest

/-- Takes an argument as a number that is not negative; negative ones wrap around. -/
def unsignedNumber : Writing Nat := do
  let n ← number (1 - Calculation.modulus) (Calculation.modulus - 1)
  return Calculation.bits n

/-- The longest decimal at the start of characters, and what follows. -/
def longestDecimal (cs : List Char) : Option (Float × List Char) :=
  ((List.range cs.length).reverse.map fun n => cs.splitAt (n + 1)).findSome? fun (a, b) =>
    if a.getLast?.any Calculation.isBlank then none else (Decimal.readFloat? a).map fun x => (x, b)

/-- Takes an argument as a decimal. -/
def decimalNumber : Writing Float := do
  match ← argument? with
  | none => return 0
  | some a =>
    match a.toList with
    | [] => return 0
    | c :: rest =>
      if c = '"' || c = '\'' then return Float.ofNat ((rest.head?.map Char.toNat).getD 0)
      let cs := (c :: rest).dropWhile Calculation.isBlank
      match longestDecimal cs, Calculation.signed? false cs with
      | some (x, rest), some (n, after) =>
        if after.length < rest.length then
          checkRest a true after
          return Float.ofInt n
        checkRest a true rest
        return x
      | some (x, rest), none =>
        checkRest a true rest
        return x
      | none, _ =>
        checkRest a false (c :: rest)
        return 0

/-! ### Directives -/

/-- Reads digits. -/
def digits (cs : List Char) : Nat × List Char :=
  let ds := cs.takeWhile Char.isDigit
  (ds.foldl (fun n c => n * 10 + (c.toNat - '0'.toNat)) 0, cs.drop ds.length)

/-- Reads a width or a precision, which may be an argument. -/
def measure (cs : List Char) : Writing (Int × List Char) := do
  match cs with
  | '*' :: rest => return (← signedNumber, rest)
  | cs =>
    let (n, rest) := digits cs
    return (n, rest)

/-- Reads the style of a directive behind the percent sign. -/
def style (cs : List Char) : Writing (Style × List Char) := do
  let flags := cs.takeWhile ['#', '-', '+', ' ', '0'].contains
  let (width, cs) ← measure (cs.drop flags.length)
  let flags := if width < 0 then '-' :: flags else flags
  match cs with
  | '.' :: rest =>
    let (precision, cs) ← measure rest
    let precision := if precision < 0 then none else some precision.toNat
    return ({ flags, width := width.natAbs, precision }, cs)
  | cs => return ({ flags, width := width.natAbs }, cs)

/-- Writes an argument as the letter of a directive says; `start` is the text of the directive. -/
def directive (s : Style) (letter : Char) (start : List Char) : Writing Unit := do
  match letter with
  | 'b' =>
    let (text, ends) := Escapes.expandText ((← argument?).getD "")
    emit (s.text text.toList)
    if ends then modify fun st => { st with ended := true }
  | 'c' => emit (s.pad [(((← argument?).getD "").toList.head?).getD '\x00'])
  | 's' => emit (s.text ((← argument?).getD "").toList)
  | 'd' | 'i' => emit (whole s (← signedNumber))
  | 'o' | 'u' | 'x' | 'X' => emit (natural s letter (← unsignedNumber))
  | 'e' | 'E' | 'f' | 'F' | 'g' | 'G' => emit (decimal s letter (← decimalNumber))
  | _ => Act.raise (String.ofList (start ++ [letter]) ++ ": invalid directive")

/-- Writes a format once. -/
def once : Nat → List Char → Writing Unit
  | 0, _ => return
  | n + 1, cs => do
    match cs with
    | [] => return
    | '\\' :: rest =>
      let (c, rest) := Escapes.read rest
      emit [c]
      once n rest
    | '%' :: '%' :: rest =>
      emit ['%']
      once n rest
    | '%' :: rest =>
      let (s, behind) ← style rest
      match behind with
      | [] => Act.raise "missing format character"
      | letter :: behind' =>
        directive s letter ('%' :: rest.take (rest.length - behind.length))
        if !(← get).ended then once n behind'
    | c :: rest =>
      emit [c]
      once n rest

/-- Writes a format until no arguments are left. -/
def rounds (format : List Char) : Nat → Writing Unit
  | 0 => return
  | n + 1 => do
    once (format.length + 1) format
    let s ← get
    if s.took && !s.arguments.isEmpty && !s.ended then rounds format n

/-- Writes a format with arguments. -/
def print (format : String) (arguments : List String) : Act Nat := do
  let start : State := { arguments }
  return (← (rounds format.toList (arguments.length + 1)).run start).2.status

end Stepflow.Shell.Format
