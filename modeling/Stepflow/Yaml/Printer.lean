import Stepflow.Decimal.Shortest
import Stepflow.Value
import Stepflow.Yaml.Scalar
import Stepflow.Yaml.Token

/-!
# Printing YAML text

Values are written in block style with two columns for each level. The members of a list stand under
the key of the list; a list or an object inside a list begins on the line of its dash. Fields are
written in the order in which they stand. A key that is long or has several lines is announced by a
question mark, and its value follows on a line of its own.
-/

/-!
## How a text is written as a YAML scalar

A text is written in one of four forms. It stands plain where that reads back as the same text. It
stands between single quotes where it would read as a number, a truth value or null, or where its
characters look like markup. It is set as a block of lines where it has a line feed. Where neither
is possible, because of a character that cannot be shown or of blanks beside a line break, it stands
between double quotes with its awkward characters escaped.

`Form.of` chooses the form, `scalar` writes it.
-/

namespace Stepflow.Yaml

/-- Whether a character may be shown as it stands. -/
def isShown (c : Char) : Bool :=
  let n := c.toNat
  n = 0x0A || (0x20 ≤ n && n ≤ 0x7E) || (0xA0 ≤ n && n ≤ 0xD7FF) ||
    (0xE000 ≤ n && n ≤ 0xFFFD && n ≠ 0xFEFF) || 0x10000 ≤ n

/-- Whether somewhere in a text a character of one kind stands directly before one of another. -/
def hasNeighbours (first second : Char → Bool) (cs : List Char) : Bool :=
  (cs.zip cs.tail).any fun (a, b) => first a && second b

/-- Whether a character is a gap or a break. -/
def isSpacing (c : Char) : Bool := isGap c || isBreak c

/-- The characters that mean something at the start of a scalar. -/
def leadingSigns : List Char :=
  ['#', ',', '[', ']', '\x7b', '\x7d', '&', '*', '!', '|', '>', '\'', '"', '%', '@', '\x60']

/-- Whether the start of a text looks like markup. -/
def startsAsMarkup : List Char → Bool
  | [] => false
  | c :: rest =>
    leadingSigns.contains c || (['?', ':', '-'].contains c && rest.head?.all isSpacing) ||
      (c :: rest).take 3 = ['-', '-', '-'] || (c :: rest).take 3 = ['.', '.', '.']

/-- Whether a text would read as a key with its colon, or as a scalar before a comment. -/
def holdsMarkup (cs : List Char) : Bool :=
  hasNeighbours (· = ':') isSpacing cs || cs.getLast? = some ':' ||
    hasNeighbours isSpacing (· = '#') cs

/-- Whether blanks or breaks stand at an end of a text. -/
def hasLooseEnds (cs : List Char) : Bool :=
  let loose (c : Char) := c = ' ' || isBreak c
  cs.head?.any loose || cs.getLast?.any loose

/-- Whether a plain scalar of this text reads as something other than a text, or is easily taken for
a number. -/
def isTakenOtherwise (s : String) : Bool :=
  isZeroPadded s.toList || match plainMeaning? s with
    | some (.text _) => false
    | _ => true

/-- The ways to write a text. -/
inductive Form where
  /-- As it stands. -/
  | plain
  /-- Between single quotes. -/
  | single
  /-- Between double quotes, with escapes. -/
  | double
  /-- Line by line under a bar. -/
  | block
  deriving DecidableEq, Repr

/-- The form in which a text is written. -/
def Form.of (s : String) : Form :=
  let cs := s.toList
  let hidden := !cs.all isShown || hasNeighbours (· = ' ') isBreak cs
  if cs.contains '\n' then
    if hidden || cs.getLast? = some ' ' then .double else .block
  else if hidden || hasNeighbours isBreak (· = ' ') cs then .double
  else if isTakenOtherwise s || cs.any isBreak || hasLooseEnds cs || startsAsMarkup cs ||
    holdsMarkup cs then .single
  else .plain

/-- The blanks in front of a line at a column. -/
def margin (column : Nat) : List Char := List.replicate column ' '

/-- The lowest `count` hexadecimal digits of a number, in upper case. -/
def hexDigits : (count n : Nat) → List Char
  | 0, _ => []
  | count + 1, n => hexDigits count (n / 16) ++ [(Json.hexDigit (n % 16)).toUpper]

/-- The letters that name characters behind a backslash. -/
def escapeLetters : List (Nat × Char) :=
  [(0x00, '0'), (0x07, 'a'), (0x08, 'b'), (0x09, 't'), (0x0A, 'n'), (0x0B, 'v'), (0x0C, 'f'),
    (0x0D, 'r'), (0x1B, 'e'), (0x22, '"'), (0x5C, '\\'), (0x85, 'N'), (0xA0, '_'), (0x2028, 'L'),
    (0x2029, 'P')]

/-- A character between double quotes. -/
def escape (c : Char) : List Char :=
  let n := c.toNat
  if isShown c && !isBreak c && c ≠ '"' && c ≠ '\\' then [c]
  else match escapeLetters.lookup n with
    | some letter => ['\\', letter]
    | none =>
      if n ≤ 0xFF then '\\' :: 'x' :: hexDigits 2 n
      else if n ≤ 0xFFFF then '\\' :: 'u' :: hexDigits 4 n
      else '\\' :: 'U' :: hexDigits 8 n

/-- The characters between single quotes: a quote is written twice, and what follows a line break
begins at the column. -/
def singleBody (column : Nat) : (afterBreak : Bool) → List Char → List Char
  | afterBreak, [] => if afterBreak then margin column else []
  | afterBreak, c :: rest =>
    if isBreak c then c :: singleBody column true rest
    else
      (if afterBreak then margin column else []) ++ (if c = '\'' then ['\'', '\''] else [c]) ++
        singleBody column false rest

/-- The lines of a block, each from the column on. -/
def blockBody (column : Nat) : (afterBreak : Bool) → List Char → List Char
  | _, [] => []
  | afterBreak, c :: rest =>
    if isBreak c then c :: blockBody column true rest
    else (if afterBreak then margin column else []) ++ c :: blockBody column false rest

/-- What stands behind the bar: the width of the margin if the first line does not show it, and
whether the breaks at the end are dropped or kept. -/
def blockHints (cs : List Char) : List Char :=
  (if cs.head?.any fun c => c = ' ' || isBreak c then ['2'] else []) ++
    match cs.reverse with
    | [] => ['-']
    | [c] => if isBreak c then ['+'] else ['-']
    | c :: d :: _ => if isBreak c then if isBreak d then ['+'] else [] else ['-']

/-- A text as a scalar whose further lines begin at a column. -/
def scalar (column : Nat) (s : String) : List Char :=
  let cs := s.toList
  match Form.of s with
  | .plain => cs
  | .single => '\'' :: (singleBody column false cs ++ ['\''])
  | .double => '"' :: (cs.flatMap escape ++ ['"'])
  | .block => '|' :: (blockHints cs ++ '\n' :: blockBody column true cs)

/-- A finished line: a break is added unless there is one. -/
def finished (cs : List Char) : List Char :=
  if cs.getLast?.any isBreak then cs else cs ++ ['\n']

end Stepflow.Yaml

/-! ## Values -/

namespace Stepflow

namespace Yaml

/-- Numbers are written positionally while the exponent of the leading digit lies between -5 and 15;
no exponent has a plus sign. -/
def layout : Decimal.Layout := ⟨-5, 15, false⟩

/-- The text of a floating-point number. -/
def floatText (x : Float) : String :=
  if x.isFinite then layout.render x
  else if x.isNaN then ".nan"
  else if x < 0.0 then "-.inf" else ".inf"

/-- What is written on the line of a value: all of a scalar, and brackets for what is empty. -/
def inlineText (column : Nat) : Value → List Char
  | .null => "null".toList
  | .bool b => (if b then "true" else "false").toList
  | .int n => (toString n).toList
  | .float x => (floatText x).toList
  | .str s => scalar column s
  | .arr _ => "[]".toList
  | .obj _ => "\x7b\x7d".toList

/-- The number of bytes that a key on the line of its value may have. -/
def keyLimit : Nat := 128

/-- Whether a key is written on a line of its own. -/
def isLongKey (key : String) : Bool := key.toList.any isBreak || key.utf8ByteSize > keyLimit

/-- A value on the line of the sign or key before it. -/
def onLine (column : Nat) (v : Value) : List Char :=
  finished (' ' :: inlineText (column + 2) v)

/-- What a value stands behind. -/
inductive Lead where
  /-- A key on the line of its value. -/
  | key
  /-- A dash, or the colon of a long key. -/
  | sign
  deriving DecidableEq

/-- A key that stands at a column, with its colon. -/
def announced (column : Nat) (key : String) : List Char :=
  if isLongKey key then '?' :: (onLine column (.str key) ++ margin column ++ [':'])
  else scalar (column + 2) key ++ [':']

/-- What the value of a key stands behind. -/
def Lead.of (key : String) : Lead := if isLongKey key then .sign else .key

mutual

/-- A value behind what stands at a column. -/
def behind (lead : Lead) (column : Nat) : Value → List Char
  | .arr items =>
    if items.isEmpty then onLine column (.arr [])
    else match lead with
      | .key => '\n' :: (margin column ++ members column items)
      | .sign => ' ' :: members (column + 2) items
  | .obj fields =>
    if fields.isEmpty then onLine column (.obj [])
    else match lead with
      | .key => '\n' :: (margin (column + 2) ++ entries (column + 2) fields)
      | .sign => ' ' :: entries (column + 2) fields
  | .null => onLine column .null
  | .bool b => onLine column (.bool b)
  | .int n => onLine column (.int n)
  | .float x => onLine column (.float x)
  | .str s => onLine column (.str s)

/-- The members of a list, each behind a dash at a column; the margin of the first is written
already. -/
def members (column : Nat) : List Value → List Char
  | [] => []
  | [v] => '-' :: behind .sign column v
  | v :: rest => '-' :: (behind .sign column v ++ margin column ++ members column rest)

/-- The fields of an object at a column; the margin of the first is written already. -/
def entries (column : Nat) : List (String × Value) → List Char
  | [] => []
  | [(k, v)] => announced column k ++ behind (.of k) column v
  | (k, v) :: rest =>
    announced column k ++ behind (.of k) column v ++ margin column ++ entries column rest

end

end Yaml

/-- The YAML text of a value. -/
def Value.yaml (v : Value) : String :=
  String.ofList <| match v with
    | .arr (item :: rest) => Yaml.members 0 (item :: rest)
    | .obj (field :: rest) => Yaml.entries 0 (field :: rest)
    | v => Yaml.finished (Yaml.inlineText 2 v)

end Stepflow
