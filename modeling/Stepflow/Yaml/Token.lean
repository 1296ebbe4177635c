import Stepflow.Json.Text
import Stepflow.Text.Basic

/-!
# Tokens of YAML text

What the characters of a text say one after another: indicators, scalars, and tokens that no
character stands for. The latter show where a block collection begins and ends, which the
indentation decides, and which token is the key of a mapping, which a colon behind it decides.

This file holds the type of tokens and the readers of the tokens that are spelled out: anchors,
tags, directives, and the five styles of scalars.
-/

/-!
## A place in YAML text

A cursor is the rest of a text together with the line, the column and the count of bytes at which it
begins. Lines end with a line feed, a carriage return, the two together, or one of three
separators; the end of the text counts as a break where one is asked for.
-/

namespace Stepflow.Yaml

/-- Whether a character ends a line. -/
def isBreak (c : Char) : Bool :=
  c = '\n' || c = '\r' || c.toNat = 0x85 || c.toNat = 0x2028 || c.toNat = 0x2029

/-- Whether a character separates words on a line. -/
def isGap (c : Char) : Bool := c = ' ' || c = '\t'

/-- Whether a character may stand in the name of an anchor or of a directive. -/
def isWordChar (c : Char) : Bool :=
  ('0' ≤ c && c ≤ '9') || ('A' ≤ c && c ≤ 'Z') || ('a' ≤ c && c ≤ 'z') || c = '_' || c = '-'

/-- Whether a text may hold a character at all. -/
def isAllowed (c : Char) : Bool :=
  let n := c.toNat
  n = 0x09 || n = 0x0A || n = 0x0D || (0x20 ≤ n && n ≤ 0x7E) || n = 0x85 ||
    (0xA0 ≤ n && n ≤ 0xD7FF) || (0xE000 ≤ n && n ≤ 0xFFFD) || 0x10000 ≤ n

/-- The rest of a text and where it begins. -/
structure Cursor where
  /-- The characters that are left. -/
  rest : List Char
  /-- The count of lines before. -/
  line : Nat := 0
  /-- The count of characters before on the same line. -/
  column : Nat := 0
  /-- The count of bytes before. -/
  index : Nat := 0
  /-- The count of characters in the whole text, so that no more than these are left. -/
  size : Nat := rest.length

namespace Cursor

/-- The next character. -/
def peek (c : Cursor) : Option Char := c.rest.head?

/-- The character after `n` others. -/
def peekAt (c : Cursor) (n : Nat) : Option Char := c.rest[n]?

/-- Whether the next character is this one. -/
def sees (c : Cursor) (x : Char) : Bool := c.peek = some x

/-- Whether the character after `n` others is a gap, a break, or missing. -/
def blankAt (c : Cursor) (n : Nat) : Bool :=
  match c.peekAt n with
  | none => true
  | some x => isGap x || isBreak x

/-- Whether a line or the text ends here. -/
def atBreakOrEnd (c : Cursor) : Bool :=
  match c.peek with
  | none => true
  | some x => isBreak x

/-- Passes one character of a line. -/
def skip (c : Cursor) : Cursor :=
  { c with
    rest := c.rest.tail, column := c.column + 1
    index := c.index + (c.rest.head?.map Char.utf8Size).getD 1 }

/-- Passes several characters of a line. -/
def skipMany (c : Cursor) (n : Nat) : Cursor :=
  { c with
    rest := c.rest.drop n, column := c.column + n
    index := (c.rest.take n).foldl (fun i x => i + x.utf8Size) c.index }

/-- Passes a break, if there is one, and gives what it stands for in a text: a line feed, or the
separator itself. -/
def readBreak (c : Cursor) : List Char × Cursor :=
  match c.rest with
  | '\r' :: '\n' :: rest =>
    (['\n'], { c with rest, line := c.line + 1, column := 0, index := c.index + 2 })
  | x :: rest =>
    if isBreak x then
      let kept := if x.toNat = 0x2028 || x.toNat = 0x2029 then x else '\n'
      ([kept], { c with rest, line := c.line + 1, column := 0, index := c.index + x.utf8Size })
    else ([], c)
  | [] => ([], c)

/-- Passes the characters of a line that satisfy a condition and gives them. -/
def readWhile (c : Cursor) (p : Char → Bool) : List Char × Cursor :=
  let taken := c.rest.takeWhile p
  (taken, c.skipMany taken.length)

/-- Passes the characters up to the end of the line. -/
def skipLine (c : Cursor) : Cursor := (c.readWhile fun x => !isBreak x).2

/-- Passes gaps. -/
def skipGaps (c : Cursor) : Cursor := (c.readWhile isGap).2

/-- Whether a marker of three characters stands alone at the start of a line. -/
def atMarker (c : Cursor) (x : Char) : Bool :=
  c.column = 0 && c.peekAt 0 = some x && c.peekAt 1 = some x && c.peekAt 2 = some x && c.blankAt 3

/-- Whether a document starts or ends here. -/
def atDocumentMarker (c : Cursor) : Bool := c.atMarker '-' || c.atMarker '.'

end Cursor

end Stepflow.Yaml

/-!
## Tags

A tag names the type of a node. It is a string of bytes, because the bytes of a tag may be written one
by one and need not be text; a byte of zero ends it. A tag that begins with an exclamation mark and is
text is one of the document's own.
-/

namespace Stepflow.Yaml

/-- The bytes of a tag. -/
abbrev Tag := List UInt8

namespace Tag

/-- The tag that a text writes. -/
def ofText (s : String) : Tag := Text.bytes s

/-- The tag that bytes write, which ends before the first byte of zero. -/
def ofBytes (bs : List UInt8) : Tag := bs.takeWhile (· ≠ 0)

/-- The tag of a core type. -/
def core (name : String) : Tag := ofText ("tag:yaml.org,2002:" ++ name)

/-- The tag that is an exclamation mark alone. -/
def bare : Tag := ofText "!"

/-- Whether a tag begins with an exclamation mark. -/
def isMarked (t : Tag) : Bool := t.head? = bare.head?

/-- The name in a tag of the document's own: what follows the exclamation mark, if it is text. -/
def localName? (t : Tag) : Option String :=
  if !t.isMarked then none
  else String.fromUTF8? ⟨(if t = bare then t else t.tail).toArray⟩

end Tag

/-- Whether a tag is one of the document's own, which no reader here understands. -/
def isLocalTag (tag : Option Tag) : Bool := tag.any fun t => t.localName?.isSome

end Stepflow.Yaml

namespace Stepflow.Yaml

/-- How a scalar is written. -/
inductive Style where
  /-- Without any mark. -/
  | plain
  /-- Between single quotes. -/
  | singleQuoted
  /-- Between double quotes. -/
  | doubleQuoted
  /-- As a block whose breaks are kept. -/
  | literal
  /-- As a block whose breaks are folded. -/
  | folded
  deriving DecidableEq, Repr

/-- A token. -/
inductive Token where
  /-- The version that a directive declares. -/
  | versionDirective (major minor : Nat)
  /-- The meaning that a directive gives to a tag handle. -/
  | tagDirective (handle : String) (expansion : Tag)
  /-- Three hyphens. -/
  | documentStart
  /-- Three points. -/
  | documentEnd
  /-- The end of the text. -/
  | streamEnd
  /-- A block sequence begins. -/
  | blockSequenceStart
  /-- A block mapping begins. -/
  | blockMappingStart
  /-- A block collection ends. -/
  | blockEnd
  /-- An opening bracket. -/
  | flowSequenceStart
  /-- A closing bracket. -/
  | flowSequenceEnd
  /-- An opening brace. -/
  | flowMappingStart
  /-- A closing brace. -/
  | flowMappingEnd
  /-- A hyphen in front of a member. -/
  | blockEntry
  /-- A comma. -/
  | flowEntry
  /-- What follows is a key. -/
  | key
  /-- What follows is the value of a key. -/
  | value
  /-- A name that stands for the node that is anchored with it. -/
  | alias (name : String)
  /-- A name for the node that follows. -/
  | anchor (name : String)
  /-- A tag of the node that follows. -/
  | tag (handle : String) (suffix : Tag)
  /-- A scalar. -/
  | scalar (text : String) (style : Style)
  deriving DecidableEq, Repr

open Cursor

/-! ### Anchors, tags and directives -/

/-- Reads the name of an anchor or an alias behind its indicator. -/
def readAnchor? (c : Cursor) : Option (String × Cursor) :=
  let (name, c) := c.skip.readWhile isWordChar
  let ends := match c.peek with
    | none => true
    | some x => isGap x || isBreak x || ['?', ':', ',', ']', '}', '%', '@', '\x60'].contains x
  if name.isEmpty || !ends then none else some (String.ofList name, c)

/-- Whether a character other than those of words may stand in a tag; `verbatim` tags have more. -/
def isTagChar (verbatim : Bool) (x : Char) : Bool :=
  isWordChar x || [';', '/', '?', ':', '@', '&', '=', '+', '$', '.', '!', '~', '*', '\'', '(', ')',
    '%'].contains x || (verbatim && [',', '[', ']'].contains x)

/-- The number of bytes of the character that begins with this one, whatever the others are. -/
def byteCount? (b : Nat) : Option Nat :=
  if b < 0x80 then some 1
  else if 0xC0 ≤ b && b < 0xE0 then some 2
  else if 0xE0 ≤ b && b < 0xF0 then some 3
  else if 0xF0 ≤ b && b < 0xF8 then some 4
  else none

/-- Reads `n` bytes, each a per cent sign and two hexadecimal digits. -/
def readEscapedBytes? : Nat → List Char → Option (List Nat × List Char)
  | 0, cs => some ([], cs)
  | n + 1, '%' :: a :: b :: rest => do
    let hi ← Json.hexValue? a
    let lo ← Json.hexValue? b
    let (bytes, rest) ← readEscapedBytes? n rest
    some ((16 * hi + lo) :: bytes, rest)
  | _ + 1, _ => none

/-- Whether a byte continues a character. -/
def isContinuation (b : Nat) : Bool := 0x80 ≤ b && b < 0xC0

/-- Reads one character written as escaped bytes. Its first byte says how many there are, and the
others have to be ones that continue a character; they need not make one up. -/
def readEscapedChar? (cs : List Char) : Option (List UInt8 × List Char) := do
  let (first, _) ← readEscapedBytes? 1 cs
  let count ← byteCount? (first.headD 0)
  let (bs, rest) ← readEscapedBytes? count cs
  if bs.tail.all isContinuation then some (bs.map UInt8.ofNat, rest) else none

/-- Reads the bytes of a tag; `fuel` bounds the number of its characters. -/
def readTagBytes? (verbatim : Bool) : Nat → List Char → Option (List UInt8 × List Char)
  | 0, cs => some ([], cs)
  | _ + 1, [] => some ([], [])
  | fuel + 1, x :: rest =>
    if x = '%' then do
      let (b, rest) ← readEscapedChar? (x :: rest)
      let (bs, rest) ← readTagBytes? verbatim fuel rest
      some (b ++ bs, rest)
    else if isTagChar verbatim x then do
      let (bs, rest) ← readTagBytes? verbatim fuel rest
      some (UInt8.ofNat x.toNat :: bs, rest)
    else some ([], x :: rest)

/-- Reads the bytes of a tag behind a cursor. -/
def readTagText? (verbatim : Bool) (c : Cursor) : Option (List UInt8 × Cursor) := do
  let (bs, rest) ← readTagBytes? verbatim c.size c.rest
  some (bs, c.skipMany (c.rest.length - rest.length))

/-- Reads the handle of a tag: an exclamation mark, the characters of a word, and an exclamation
mark if there is one. -/
def readHandle? (c : Cursor) : Option (List Char × Cursor) :=
  if !c.sees '!' then none
  else
    let (word, c) := c.skip.readWhile isWordChar
    if c.sees '!' then some ('!' :: (word ++ ['!']), c.skip) else some ('!' :: word, c)

/-- Reads a tag: its handle and its suffix. -/
def readTag? (inFlow : Bool) (c : Cursor) : Option (Token × Cursor) := do
  let (handle, suffix, c) ←
    if c.peekAt 1 = some '<' then do
      let (text, c) ← readTagText? true (c.skipMany 2)
      if text.isEmpty || !c.sees '>' then none
      else some ("", Tag.ofBytes text, c.skip)
    else do
      let (handle, c) ← readHandle? c
      if 2 ≤ handle.length && handle.getLast? = some '!' then do
        let (text, c) ← readTagText? false c
        if text.isEmpty then none else some (String.ofList handle, Tag.ofBytes text, c)
      else do
        let (text, c) ← readTagText? false c
        let suffix := Tag.ofBytes (Text.bytes (String.ofList (handle.drop 1)) ++ text)
        if suffix.isEmpty then some ("", Tag.bare, c) else some ("!", suffix, c)
  if (inFlow && c.sees ',') || c.blankAt 0 then some (.tag handle suffix, c) else none

/-- Reads the number of a version: up to nine digits. -/
def readVersionNumber? (c : Cursor) : Option (Nat × Cursor) :=
  let (digits, c) := c.readWhile Text.isDigit
  if digits.isEmpty || 9 < digits.length then none else some (Text.digitsValue digits, c)

/-- Reads a directive, up to the end of its line. -/
def readDirective? (c : Cursor) : Option (Token × Cursor) := do
  let (name, c) := c.skip.readWhile isWordChar
  if name.isEmpty || !c.blankAt 0 then none
  let (token, c) ←
    if name = ['Y', 'A', 'M', 'L'] then do
      let (major, c) ← readVersionNumber? c.skipGaps
      if !c.sees '.' then none
      let (minor, c) ← readVersionNumber? c.skip
      some (.versionDirective major minor, c)
    else if name = ['T', 'A', 'G'] then do
      let (handle, c) ← readHandle? c.skipGaps
      if handle ≠ ['!'] && handle.getLast? ≠ some '!' then none
      if !(c.peek.any isGap) then none
      let (expansion, c) ← readTagText? true c.skipGaps
      if expansion.isEmpty || !c.blankAt 0 then none
      some (.tagDirective (String.ofList handle) (Tag.ofBytes expansion), c)
    else none
  let c := c.skipGaps
  let c := if c.sees '#' then c.skipLine else c
  if !c.atBreakOrEnd then none
  some (token, c.readBreak.2)

/-! ### Scalars -/

/-- Breaks and gaps met between two words of a scalar. -/
structure Between where
  /-- Whether a break was met. -/
  broken : Bool := false
  /-- The first break. -/
  first : List Char := []
  /-- The breaks after it. -/
  more : List Char := []
  /-- The gaps before the first break. -/
  gaps : List Char := []

/-- What stands between the two words in the scalar: one break becomes a space, of several the first
is dropped, and a separator is kept. -/
def Between.folded (b : Between) : List Char :=
  if b.broken then
    if b.first = ['\n'] then if b.more.isEmpty then [' '] else b.more
    else b.first ++ b.more
  else b.gaps

/-- Passes gaps and breaks. Once a break was met, a tab before column `minimum` is refused. -/
def readBetween? (minimum : Nat) : Nat → Between → Cursor → Option (Between × Cursor)
  | 0, b, c => some (b, c)
  | fuel + 1, b, c =>
    match c.peek with
    | none => some (b, c)
    | some x =>
      if isGap x then
        if b.broken && c.column < minimum && x = '\t' then none
        else if b.broken then readBetween? minimum fuel b c.skip
        else readBetween? minimum fuel { b with gaps := b.gaps ++ [x] } c.skip
      else if isBreak x then
        let (text, c) := c.readBreak
        if b.broken then readBetween? minimum fuel { b with more := b.more ++ text } c
        else readBetween? minimum fuel { b with broken := true, first := text, gaps := [] } c
      else some (b, c)

/-- Reads the characters of a plain scalar up to the next gap or break, or to an indicator that ends
it. -/
def readPlainWord? (inFlow : Bool) : Nat → Cursor → Option (List Char × Cursor)
  | 0, c => some ([], c)
  | fuel + 1, c =>
    match c.peek with
    | none => some ([], c)
    | some x =>
      if isGap x || isBreak x then some ([], c)
      else if inFlow && x = ':' &&
          (c.peekAt 1).any (fun y => [',', '?', '[', ']', '{', '}'].contains y) then none
      else if (x = ':' && c.blankAt 1) ||
          (inFlow && [',', '[', ']', '{', '}'].contains x) then some ([], c)
      else do
        let (rest, c) ← readPlainWord? inFlow fuel c.skip
        some (x :: rest, c)

/-- Reads the words of a plain scalar. The last component tells whether a break follows the last
word. -/
def readPlainWords? (inFlow : Bool) (minimum : Nat) :
    Nat → Between → Cursor → Option (List Char × Cursor × Bool)
  | 0, b, c => some ([], c, b.broken)
  | fuel + 1, b, c =>
    if c.atDocumentMarker || c.sees '#' then some ([], c, b.broken)
    else do
      let (word, c) ← readPlainWord? inFlow c.size c
      let front := if word.isEmpty then [] else b.folded ++ word
      let b := if word.isEmpty then b else {}
      if !(c.peek.any fun x => isGap x || isBreak x) then some (front, c, b.broken)
      else do
        let (b, c) ← readBetween? minimum c.size b c
        if !inFlow && c.column < minimum then some (front, c, b.broken)
        else do
          let (rest, c, broken) ← readPlainWords? inFlow minimum fuel b c
          some (front ++ rest, c, broken)

/-- The character that a letter stands for behind a backslash. -/
def namedEscape? (x : Char) : Option Char :=
  match x with
  | '0' => some (Char.ofNat 0)
  | 'a' => some (Char.ofNat 7)
  | 'b' => some (Char.ofNat 8)
  | 't' => some '\t'
  | '\t' => some '\t'
  | 'n' => some '\n'
  | 'v' => some (Char.ofNat 11)
  | 'f' => some (Char.ofNat 12)
  | 'r' => some '\r'
  | 'e' => some (Char.ofNat 27)
  | ' ' => some ' '
  | '"' => some '"'
  | '/' => some '/'
  | '\\' => some '\\'
  | 'N' => some (Char.ofNat 0x85)
  | '_' => some (Char.ofNat 0xA0)
  | 'L' => some (Char.ofNat 0x2028)
  | 'P' => some (Char.ofNat 0x2029)
  | _ => none

/-- The count of hexadecimal digits that follow a letter behind a backslash. -/
def escapeDigits? (x : Char) : Option Nat :=
  match x with
  | 'x' => some 2
  | 'u' => some 4
  | 'U' => some 8
  | _ => none

/-- The number that hexadecimal digits write. -/
def hexNumber? (cs : List Char) : Option Nat :=
  cs.foldlM (fun n x => (Json.hexValue? x).map (16 * n + ·)) 0

/-- Reads an escape behind a backslash. -/
def readEscape? (c : Cursor) : Option (Char × Cursor) :=
  match c.peekAt 1 with
  | none => none
  | some x =>
    match escapeDigits? x with
    | none => (namedEscape? x).map fun y => (y, c.skipMany 2)
    | some count =>
      let digits := (c.rest.drop 2).take count
      if digits.length ≠ count then none
      else (hexNumber? digits).bind fun n =>
        if (0xD800 ≤ n && n ≤ 0xDFFF) || 0x10FFFF < n then none
        else some (Char.ofNat n, c.skipMany (2 + count))

/-- Reads the characters of a quoted scalar up to the next gap or break or to the closing quote. The
last component tells whether an escaped break was passed. -/
def readQuotedWord? (single : Bool) : Nat → Cursor → Option (List Char × Cursor × Bool)
  | 0, c => some ([], c, false)
  | fuel + 1, c =>
    match c.peek with
    | none => some ([], c, false)
    | some x =>
      if isGap x || isBreak x then some ([], c, false)
      else if single && x = '\'' && c.peekAt 1 = some '\'' then do
        let (rest, c, b) ← readQuotedWord? single fuel (c.skipMany 2)
        some ('\'' :: rest, c, b)
      else if x = (if single then '\'' else '"') then some ([], c, false)
      else if !single && x = '\\' then
        if (c.peekAt 1).any isBreak then some ([], c.skip.readBreak.2, true)
        else do
          let (y, c) ← readEscape? c
          let (rest, c, b) ← readQuotedWord? single fuel c
          some (y :: rest, c, b)
      else do
        let (rest, c, b) ← readQuotedWord? single fuel c.skip
        some (x :: rest, c, b)

/-- Reads the words of a quoted scalar, up to its closing quote. -/
def readQuotedWords? (single : Bool) : Nat → Cursor → Option (List Char × Cursor)
  | 0, _ => none
  | fuel + 1, c =>
    if c.atDocumentMarker || c.rest.isEmpty then none
    else do
      let (word, c, escaped) ← readQuotedWord? single c.size c
      if c.sees (if single then '\'' else '"') then some (word, c.skip)
      else do
        let (b, c) ← readBetween? 0 c.size { broken := escaped } c
        let (rest, c) ← readQuotedWords? single fuel c
        some (word ++ b.folded ++ rest, c)

/-- Reads a quoted scalar. -/
def readQuoted? (single : Bool) (c : Cursor) : Option (Token × Cursor) := do
  let (text, c) ← readQuotedWords? single (c.size + 1) c.skip
  some (.scalar (String.ofList text) (if single then .singleQuoted else .doubleQuoted), c)

/-- What happens to the breaks at the end of a block. -/
inductive Chomping where
  /-- All are dropped. -/
  | strip
  /-- The first is kept. -/
  | clip
  /-- All are kept. -/
  | keep
  deriving DecidableEq

/-- Reads the indicators behind the one that opens a block: how its end is treated, and by how many
columns it is indented, in either order. -/
def readBlockHeader? (c : Cursor) : Option (Chomping × Option Nat × Cursor) :=
  let chomping? (c : Cursor) : Option Chomping :=
    if c.sees '+' then some .keep else if c.sees '-' then some .strip else none
  let digit? (c : Cursor) : Option Nat :=
    c.peek.bind fun x => if Text.isDigit x then some (x.toNat - '0'.toNat) else none
  match chomping? c with
  | some ch =>
    match digit? c.skip with
    | some 0 => none
    | some n => some (ch, some n, c.skipMany 2)
    | none => some (ch, none, c.skip)
  | none =>
    match digit? c with
    | some 0 => none
    | some n =>
      match chomping? c.skip with
      | some ch => some (ch, some n, c.skipMany 2)
      | none => some (.clip, some n, c.skip)
    | none => some (.clip, none, c)

/-- Passes the indentation of a block and the empty lines in it; `indent` is zero while the
indentation is not known. Gives the breaks, the greatest column reached and the new place. -/
def readBlockBreaks? (indent : Nat) : Nat → Nat → Cursor → Option (List Char × Nat × Cursor)
  | 0, deepest, c => some ([], deepest, c)
  | fuel + 1, deepest, c =>
    let spaces := (c.rest.takeWhile (· = ' ')).length
    let c := c.skipMany (if indent = 0 then spaces else min spaces (indent - c.column))
    let deepest := max deepest c.column
    if (indent = 0 || c.column < indent) && c.sees '\t' then none
    else if c.peek.any isBreak then do
      let (text, c) := c.readBreak
      let (more, deepest, c) ← readBlockBreaks? indent fuel deepest c
      some (text ++ more, deepest, c)
    else some ([], deepest, c)

/-- Reads the lines of a block. `first` is the break behind the line before, `breaks` are those
after it, and `blankBefore` tells whether that line began with a gap. -/
def readBlockLines? (literal : Bool) (chomping : Chomping) (indent : Nat) :
    Nat → (first breaks : List Char) → (blankBefore : Bool) → Cursor →
      Option (List Char × Cursor)
  | 0, _, _, _, _ => none
  | fuel + 1, first, breaks, blankBefore, c =>
    if c.column = indent && !c.rest.isEmpty then do
      let blank := c.peek.any isGap
      let front :=
        if !literal && first = ['\n'] && !blankBefore && !blank then
          if breaks.isEmpty then [' '] else breaks
        else first ++ breaks
      let (line, c) := c.readWhile fun x => !isBreak x
      let (first, c) := c.readBreak
      let (breaks, _, c) ← readBlockBreaks? indent (c.size + 1) 0 c
      let (rest, c) ← readBlockLines? literal chomping indent fuel first breaks blank c
      some (front ++ line ++ rest, c)
    else
      match chomping with
      | .strip => some ([], c)
      | .clip => some (first, c)
      | .keep => some (first ++ breaks, c)

/-- Reads a block inside a collection that is indented by `outer` columns, -1 outside all. -/
def readBlock? (literal : Bool) (outer : Int) (c : Cursor) : Option (Token × Cursor) := do
  let (chomping, increment, c) ← readBlockHeader? c.skip
  let c := c.skipGaps
  let c := if c.sees '#' then c.skipLine else c
  if !c.atBreakOrEnd then none
  let c := c.readBreak.2
  let given : Nat := match increment with
    | none => 0
    | some n => if 0 ≤ outer then outer.toNat + n else n
  let (breaks, deepest, c) ← readBlockBreaks? given (c.size + 1) 0 c
  let indent := if given = 0 then max (max deepest (outer + 1).toNat) 1 else given
  let (text, c) ←
    readBlockLines? literal chomping indent (c.size + 2) [] breaks false c
  some (.scalar (String.ofList text) (if literal then .literal else .folded), c)

end Stepflow.Yaml
