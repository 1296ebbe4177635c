import Stepflow.Shell.Fields

/-!
# Patterns

A pattern is made of characters that stand for themselves, a mark for any character, one for any
characters, and sets of characters in brackets. Quoted characters stand for themselves.
-/

namespace Stepflow.Shell

/-- A member of a set of characters. -/
inductive Member where
  /-- All characters between two. -/
  | range (low high : Char)
  /-- All characters of a kind. -/
  | kind (name : String)

/-- A part of a pattern. -/
inductive Shape where
  /-- A character. -/
  | one (c : Char)
  /-- Any character. -/
  | any
  /-- Any characters. -/
  | many
  /-- A character of a set, or one that is not in it. -/
  | set (members : List Member) (inside : Bool)

namespace Shape

/-- Whether a character is of a kind. -/
def isOfKind (name : String) (c : Char) : Bool :=
  let isPrint := ' ' ≤ c && c ≤ '~'
  match name with
  | "alpha" => c.isAlpha
  | "digit" => c.isDigit
  | "alnum" => c.isAlphanum
  | "upper" => c.isUpper
  | "lower" => c.isLower
  | "space" => c = ' ' || ('\t' ≤ c && c ≤ '\r')
  | "blank" => c = ' ' || c = '\t'
  | "punct" => isPrint && c ≠ ' ' && !c.isAlphanum
  | "print" => isPrint
  | "graph" => isPrint && c ≠ ' '
  | "cntrl" => c < ' ' || c = '\x7f'
  | "xdigit" => c.isDigit || ('a' ≤ c && c ≤ 'f') || ('A' ≤ c && c ≤ 'F')
  | _ => false

/-- The names of the kinds. -/
def kinds : List String :=
  ["alpha", "digit", "alnum", "upper", "lower", "space", "blank", "punct", "print", "graph", "cntrl",
    "xdigit"]

/-- Whether a character is a member. -/
def isMember (c : Char) : Member → Bool
  | .range low high => low ≤ c && c ≤ high
  | .kind name => isOfKind name c

/-- Reads the name of a kind behind `[:`. -/
def kind? (gs : List Glyph) : Option (String × List Glyph) :=
  let name := gs.takeWhile fun
    | .char c _ => c.isAlpha
    | _ => false
  match gs.drop name.length with
  | .char ':' _ :: .char ']' _ :: rest =>
    if kinds.contains (Glyph.text name) then some (Glyph.text name, rest) else none
  | _ => none

/-- Reads the members of a set up to its closing bracket; `first` says that a bracket would be a member. -/
def members? : Nat → (first : Bool) → List Glyph → Option (List Member × List Glyph)
  | 0, _, _ => none
  | n + 1, first, gs =>
    match gs with
    | [] => none
    | .char ']' false :: rest =>
      if first then member? n ']' rest else some ([], rest)
    | .char '[' false :: .char ':' false :: rest =>
      match kind? rest with
      | some (name, rest) => (members? n false rest).map fun (ms, rest) => (.kind name :: ms, rest)
      | none => member? n '[' (.char ':' false :: rest)
    | .char c _ :: rest => member? n c rest
    | _ :: rest => members? n first rest
where
  /-- Reads what follows the first character of a member. -/
  member? (n : Nat) (c : Char) (gs : List Glyph) : Option (List Member × List Glyph) :=
    match gs with
    | .char '-' false :: .char d q :: rest =>
      if d = ']' && !q then (members? n false gs).map fun (ms, rest) => (.range c c :: ms, rest)
      else (members? n false rest).map fun (ms, rest) => (.range c d :: ms, rest)
    | _ => (members? n false gs).map fun (ms, rest) => (.range c c :: ms, rest)

/-- Reads a set behind its opening bracket. -/
def set? (gs : List Glyph) : Option (Shape × List Glyph) :=
  let (inside, gs) := match gs with
    | .char '!' false :: rest => (false, rest)
    | gs => (true, gs)
  (members? (gs.length + 1) true gs).map fun (ms, rest) => (.set ms inside, rest)

/-- Reads a pattern. -/
def read : Nat → List Glyph → List Shape
  | 0, _ => []
  | n + 1, gs =>
    match gs with
    | [] => []
    | .char '*' false :: rest => .many :: read n rest
    | .char '?' false :: rest => .any :: read n rest
    | .char '[' false :: rest =>
      match set? rest with
      | some (s, rest) => s :: read n rest
      | none => .one '[' :: read n rest
    | .char c _ :: rest => .one c :: read n rest
    | _ :: rest => read n rest

/-- The pattern that glyphs stand for. -/
def ofGlyphs (gs : List Glyph) : List Shape := read gs.length gs

/-- Whether a character fits a part of a pattern. -/
def fitsChar (c : Char) : Shape → Bool
  | .one d => c = d
  | .any | .many => true
  | .set ms inside => ms.any (isMember c) = inside

/-- Whether characters fit a pattern that may begin with any characters, if `fits` says so of the rest of
the pattern. -/
def fitsAfterMany (fits : List Char → Bool) : List Char → Bool
  | [] => fits []
  | c :: cs => fits (c :: cs) || fitsAfterMany fits cs

/-- Whether characters fit a pattern. -/
def fits : List Shape → List Char → Bool
  | [], cs => cs.isEmpty
  | .many :: rest, cs => fitsAfterMany (fits rest) cs
  | _ :: _, [] => false
  | s :: rest, c :: cs => fitsChar c s && fits rest cs

end Shape

/-- Whether a text fits a pattern. -/
def fitsPattern (gs : List Glyph) (text : List Char) : Bool := Shape.fits (Shape.ofGlyphs gs) text

/-- Whether any glyph has a meaning in patterns. -/
def isPattern (gs : List Glyph) : Bool :=
  gs.any fun
    | .char c false => c = '*' || c = '?' || c = '['
    | _ => false

namespace Trim

/-- Ways to cut a list in two, from the shortest first part on. -/
def cuts {α : Type} (xs : List α) : List (List α × List α) :=
  (List.range (xs.length + 1)).map xs.splitAt

/-- Takes away a part at the start that fits a pattern: the shortest or the longest. Only what stands
before the first gap is looked at. -/
def atStart (pattern value : List Glyph) (longest : Bool) : List Glyph :=
  let shapes := Shape.ofGlyphs pattern
  let candidates := if longest then (cuts value).reverse else cuts value
  match candidates.find? fun (a, _) => Shape.fits shapes (Glyph.chars (Glyph.upToGap a)) with
  | some (_, rest) => rest
  | none => value

/-- Takes away a part at the end that fits a pattern: the shortest or the longest. -/
def atEnd (pattern value : List Glyph) (longest : Bool) : List Glyph :=
  let shapes := Shape.ofGlyphs pattern
  let candidates := if longest then cuts value else (cuts value).reverse
  match candidates.find? fun (_, b) => Shape.fits shapes (Glyph.chars (Glyph.upToGap b)) with
  | some (rest, _) => rest
  | none => value

end Trim

end Stepflow.Shell
