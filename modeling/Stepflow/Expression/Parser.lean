import Stepflow.Expression.Basic
import Stepflow.Text.Basic

/-!
# Reading references

`Expression.parse` reads a text that is one reference. Between the markers stand an optional `not`,
which needs a blank behind it, and a path: parts separated by points, each a name or a number with
any count of places in brackets behind it, with blanks around it.

The reader is put together from readers of a bracketed place, of a part and of the body, each a
function on lists of characters.
-/

namespace Stepflow.Expression

open Text

/-- The marker in front of a reference. -/
def opening : List Char := ['$', '{', '{']

/-- The marker behind a reference. -/
def closing : List Char := ['}', '}']

/-- The first number that is too large for a place. -/
def placeBound : Nat := Nat.pow 2 64

/-- Whether a character may stand in a name. -/
def isNameChar (c : Char) : Bool :=
  ('a' ≤ c && c ≤ 'z') || ('A' ≤ c && c ≤ 'Z') || isDigit c || c = '_' || c = '-'

/-- Reads the places in brackets that follow a name. The count of characters falls with every
bracket, so `fuel` is enough if it is that count. -/
def places : Nat → List Char → Except SyntaxCause (List Segment)
  | _, [] => .ok []
  | 0, _ :: _ => .error .unclosedBracket
  | fuel + 1, _ :: rest =>
    match cutAt? [']'] rest with
    | none => .error .unclosedBracket
    | some (digits, after) =>
      match readNat? placeBound (trim digits) with
      | none => .error (.indexNotInteger (String.ofList digits))
      | some n =>
        match after with
        | [] => .ok [.index n]
        | c :: _ =>
          if c = '[' then (places fuel after).map (.index n :: ·)
          else .error (.trailing (String.ofList after))

/-- Reads what stands before the first bracket of a part: digits are a place, other characters of a
name are a field. -/
def head (cs : List Char) : Except SyntaxCause Segment :=
  if cs.all isDigit then
    match readNat? placeBound cs with
    | some n => .ok (.index n)
    | none => .error (.badIndex (String.ofList cs))
  else if cs.all isNameChar then .ok (.field (String.ofList cs))
  else .error (.invalidSegment (String.ofList cs))

/-- Reads one part of a path. -/
def part (cs : List Char) : Except SyntaxCause (List Segment) :=
  let cs := trim cs
  let name := cs.takeWhile (· ≠ '[')
  let rest := cs.dropWhile (· ≠ '[')
  if cs.isEmpty then .error .emptySegment
  else if name.isEmpty then places cs.length rest
  else do
    let first ← head name
    let others ← places cs.length rest
    return first :: others

/-- Reads all parts of a path, from left to right. -/
def parts : List (List Char) → Except SyntaxCause (List Segment)
  | [] => .ok []
  | p :: rest => do
    let first ← part p
    let others ← parts rest
    return first ++ others

/-- Whether the word `not` stands in front, and what follows it. -/
def negation (cs : List Char) : Bool × List Char :=
  match cs with
  | 'n' :: 'o' :: 't' :: c :: rest => if isBlank c then (true, trimStart (c :: rest)) else (false, cs)
  | _ => (false, cs)

/-- Reads what stands between the markers: the root, the path behind it and whether it is negated. -/
def body (cs : List Char) : Except SyntaxCause (Root × List Segment × Bool) := do
  let (negated, cs) := negation (trim cs)
  if cs.isEmpty then throw .emptyReference
  let segments ← parts (splitAt '.' cs)
  match segments with
  | .field word :: path =>
    match Root.ofWord? word with
    | none => throw (.unknownRoot word)
    | some root =>
      match path with
      | [] => throw (.nothingAfterRoot word)
      | .index _ :: _ => throw (.indexAfterRoot word)
      | .field _ :: rest =>
        if root = .stepOutput ∧ rest.head? ≠ some (.field "output") then throw .notAnOutput
        return (root, path, negated)
  | _ => throw .missingRoot

/-- What stands between the two markers, if a text without blanks at its ends is enclosed in them. -/
def between? (cs : List Char) : Option (List Char) :=
  (stripPrefix? opening cs).bind (stripSuffix? closing)

/-- Reads a reference given as a list of characters. -/
def parseChars (cs : List Char) : Except SyntaxCause Expression :=
  match between? (trim cs) with
  | none => .error .notEnclosed
  | some inner =>
    (body inner).map fun (root, path, negated) => ⟨String.ofList (trim cs), root, path, negated⟩

/-- **Reading a reference**: the text, with any blanks around it, must be one reference. -/
def parse (text : String) : Except SyntaxError Expression :=
  (parseChars text.toList).mapError fun cause => ⟨text, cause⟩

end Stepflow.Expression
