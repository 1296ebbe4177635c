import Stepflow.Shell.Command

/-!
# Words and their fields

Words that remember their quotes, and how they are divided.
-/

/-!
## Words with their quotes

While a word is turned into values, its characters remember whether they were quoted, for a quoted
character stands for itself in a pattern. Quotation marks stay as well, as do the places between values
that are not to be joined.
-/

namespace Stepflow.Shell

/-- A part of a word that is being turned into values. -/
inductive Glyph where
  /-- A character, and whether it was quoted. -/
  | char (c : Char) (quoted : Bool)
  /-- A quotation mark. -/
  | mark
  /-- The place between two values. -/
  | gap
  deriving DecidableEq, Inhabited

namespace Glyph

/-- The glyphs of a text. -/
def ofText (quoted : Bool) (s : String) : List Glyph := s.toList.map fun c => .char c quoted

/-- The characters among glyphs. -/
def chars : List Glyph → List Char
  | [] => []
  | .char c _ :: rest => c :: chars rest
  | _ :: rest => chars rest

/-- The text of glyphs. -/
def text (gs : List Glyph) : String := String.ofList (chars gs)

/-- The glyphs up to the first place between two values. -/
def upToGap (gs : List Glyph) : List Glyph := gs.takeWhile (· ≠ .gap)

end Glyph

/-- What may divide a part of a word into fields. -/
inductive Dividing where
  /-- Nothing. -/
  | never
  /-- The characters that the shell was told to divide at. -/
  | characters
  /-- Only the places between values. -/
  | gaps
  deriving DecidableEq, Inhabited

/-- A stretch of a word that is being turned into values. -/
structure Span where
  /-- Its glyphs. -/
  glyphs : List Glyph
  /-- What may divide it. -/
  dividing : Dividing := .never
  deriving Inhabited

namespace Span

/-- The glyphs of some spans. -/
def glyphsOf (spans : List Span) : List Glyph := spans.flatMap Span.glyphs

/-- The text of some spans. -/
def text (spans : List Span) : String := Glyph.text (glyphsOf spans)

end Span

/-!
## Dividing words into fields

A word that was turned into values is divided into fields. Characters that divide come from a list; the
blanks among them count together, and those at the start and the end of a word count as nothing. The
others divide one by one, each with the blanks around it.

The number of fields may be limited. The last of them then has all that is left, except for blanks at
the end and for a character that would end it.
-/

/-- The blanks that may divide. -/
def dividingBlanks : List Char := [' ', '\t', '\n']

namespace Fields

/-- Where the division of a word stands. -/
structure State where
  /-- The fields so far, the last first. -/
  fields : List (List Glyph) := []
  /-- The glyphs of the present field, the last first. -/
  present : List Glyph := []
  /-- Whether a blank divided last, so that more of them count as nothing. -/
  afterBlank : Bool := false
  /-- Whether only gaps divided in the last part that may be divided. -/
  onlyGaps : Bool := false
  /-- How many fields there may still be, if they are limited. -/
  left : Option Nat := none
  /-- How many glyphs of the present field are to be kept, if not all. -/
  kept : Option Nat := none

namespace State

/-- Ends the present field. -/
def cut (s : State) : State := { s with fields := s.present.reverse :: s.fields, present := [] }

/-- Adds a glyph to the present field. -/
def push (s : State) (g : Glyph) : State := { s with present := g :: s.present }

/-- Takes a glyph of the last field that there may be. -/
def takeLast (s : State) (g : Glyph) (divides blank : Bool) : State :=
  if divides && blank then { s.push g with kept := s.kept.orElse fun _ => some s.present.length }
  else
    let kept := if divides && s.afterBlank then s.kept else none
    { s.push g with kept, afterBlank := false }

/-- Takes a glyph that divides, or does not, and is a blank, or is not; `free` says that blanks count
together. -/
def takeFree (s : State) (g : Glyph) (divides blank free : Bool) : State :=
  if s.afterBlank then
    if divides then if blank then s else { s with afterBlank := false }
    else { s.push g with afterBlank := false }
  else if divides then
    let together := free && blank
    if s.present.isEmpty && together then s
    else match s.left with
      | none => { s.cut with afterBlank := together }
      | some n =>
        if n ≤ 1 then
          { s.push g with afterBlank := together, left := some 0, kept := some s.present.length }
        else { s.cut with afterBlank := together, left := some (n - 1) }
  else s.push g

/-- Takes a glyph of a part that may be divided, where `separates` tells the characters that divide. -/
def take (separates : Char → Bool) (free : Bool) (s : State) (g : Glyph) : State :=
  let (divides, blank) := match g with
    | .gap => (true, true)
    | .char c _ => (separates c, dividingBlanks.contains c)
    | .mark => (false, false)
  if s.left = some 0 then s.takeLast g divides blank else s.takeFree g divides blank free

/-- Takes a span, with the characters that divide. -/
def span (separators : List Char) (s : State) (p : Span) : State :=
  match p.dividing with
  | .never => { s with present := p.glyphs.reverse ++ s.present }
  | .characters =>
    p.glyphs.foldl (take separators.contains (!s.onlyGaps))
      { s with afterBlank := false, onlyGaps := false }
  | .gaps => p.glyphs.foldl (take (fun _ => false) false) { s with afterBlank := false, onlyGaps := true }

/-- Drops what is not to be kept of the present field. -/
def keep (s : State) : State :=
  match s.kept with
  | none => s
  | some n => { s with present := s.present.drop (s.present.length - n) }

/-- The fields at the end. -/
def finish (s : State) : List (List Glyph) :=
  let s := s.keep
  (if s.onlyGaps || !s.present.isEmpty then s.cut else s).fields.reverse

end State

/-- Divides a word into fields, with the characters that divide, and how many fields there may be. -/
def divide (separators : List Char) (limit : Option Nat) (spans : List Span) : List (List Glyph) :=
  (spans.foldl (State.span separators) { left := limit }).finish

end Fields

end Stepflow.Shell
