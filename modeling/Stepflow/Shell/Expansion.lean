import Stepflow.Shell.Calculation
import Stepflow.Shell.Fields
import Stepflow.Shell.Pattern
import Stepflow.Shell.Vocabulary
import Stepflow.Shell.Streams

/-!
# Turning words into values

The pieces of a word are replaced from left to right: a parameter by its value, a command by what it
writes, a calculation by its number, a tilde at the start by a directory. The result is divided into
fields and may stand for paths, unless the word is one of those that keep together.

Everything here is given a way to run commands, for there may be commands in words.
-/

/-!
## Patterns of paths

A field that is a pattern stands for the paths of all files that fit it. The parts of the pattern between
solidi are followed one after the other; a name that begins with a point fits only a part that says so.
-/

namespace Stepflow.Shell.Pathnames

/-- A part of a pattern of paths, and the number of solidi behind it. -/
abbrev Part := List Glyph × Nat

/-- Takes a pattern of paths apart. -/
def parts : Nat → List Glyph → List Part
  | 0, _ => []
  | n + 1, gs =>
    let isSolidus : Glyph → Bool := fun
      | .char '/' _ => true
      | _ => false
    let part := gs.takeWhile fun g => !isSolidus g
    let rest := gs.drop part.length
    let solidi := (rest.takeWhile isSolidus).length
    if rest.isEmpty then [(part, 0)] else (part, solidi) :: parts n (rest.drop solidi)

/-- Whether a name fits a part of a pattern. -/
def nameFits (part : List Glyph) (name : String) : Bool :=
  let hidden := name.toList.head? = some '.'
  let asks := match part.find? (· ≠ .mark) with
    | some (.char '.' _) => true
    | _ => false
  (!hidden || asks) && fitsPattern part name.toList

/-- The names in a directory, with those of the directory itself and the one above it. -/
def namesIn (path : String) : Act (List String) := do
  match ← Act.find (if path = "" then "." else path) with
  | .ok (.dir entries) => return "." :: ".." :: entries.map fun e => Octets.ofText e.1
  | _ => return []

/-- The paths that fit parts of a pattern, behind a path. -/
def follow : List Part → String → Act (List String)
  | [], path => do
    match ← Act.find path with
    | .ok _ => return [path]
    | .error _ => return []
  | (part, solidi) :: rest, path => do
    let behind := String.ofList (List.replicate solidi '/')
    if isPattern part then
      let names := (← namesIn path).filter (nameFits part)
      if rest.isEmpty && solidi = 0 then return names.map (path ++ ·)
      let found ← names.mapM fun name => follow rest (path ++ name ++ behind)
      return found.flatten
    else follow rest (path ++ Glyph.text part ++ behind)

/-- The fields that a field stands for: the paths that fit it, in order, or its own text. -/
def expand (field : List Glyph) : Act (List String) := do
  if !isPattern field || (← Act.isOn 'f') then return [Glyph.text field]
  let found ← follow (parts (field.length + 1) field) ""
  return if found.isEmpty then [Glyph.text field] else found.mergeSort fun a b => a ≤ b

end Stepflow.Shell.Pathnames

namespace Stepflow.Shell

/-- What a word is replaced for. -/
structure Purpose where
  /-- Whether it will be divided into fields. -/
  divides : Bool := false
  /-- Whether it stands in double quotes. -/
  quoted : Bool := false
  /-- Whether it replaces the value of a parameter. -/
  operand : Bool := false
  /-- Whether a tilde at its start stands for a directory. -/
  tilde : Bool := true
  /-- Whether it is an assignment, so that tildes behind colons do too. -/
  assignment : Bool := false

/-- The value of a parameter. -/
inductive Held where
  /-- There is none. -/
  | missing
  /-- A text. -/
  | one (s : String)
  /-- Several texts, with what stands between them. -/
  | several (texts : List String) (between : List Glyph)

namespace Held

/-- The glyphs of a value. -/
def glyphs (quoted : Bool) : Held → List Glyph
  | .missing => []
  | .one s => Glyph.ofText quoted s
  | .several texts between =>
    List.flatten ((texts.map (Glyph.ofText quoted)).intersperse between)

/-- Whether there is no value, or an empty one where that counts as none. -/
def isMissing ( empty : Bool) : Held → Bool
  | .missing => true
  | h => empty && (h.glyphs false).isEmpty

end Held

namespace Expansion

/-! ### Parameters -/

/-- What stands between the arguments when they are joined. -/
def joint (s : Session) : List Glyph :=
  match s.value? "IFS" with
  | none => [.char ' ' true]
  | some cs => (cs.toList.head?.map fun c => Glyph.char c true).toList

/-- What stands between the arguments, by the mark that is used for them. -/
def between (p : Purpose) (s : Session) (name : String) : List Glyph :=
  if p.divides && (!p.quoted || name = "@") then
    if p.quoted || (s.value? "IFS").isSome then [.gap] else [.char ' ' false]
  else joint s

/-- The value of a parameter. -/
def held (p : Purpose) (name : String) : Act Held := do
  let s ← Act.session
  match name with
  | "$" => return .one (toString s.main)
  | "?" => return .one (toString s.status)
  | "#" => return .one (toString s.arguments.length)
  | "!" => return (s.lastJob.map fun n => Held.one (toString n)).getD .missing
  | "-" => return .one (String.ofList (Setting.letters.reverse.filter s.settings.contains))
  | "@" | "*" => return .several s.arguments (between p s name)
  | _ =>
    match name.toNat? with
    | some 0 => return .one s.name
    | some (n + 1) => return (s.arguments[n]?.map Held.one).getD .missing
    | none => return ((s.value? name).map Held.one).getD .missing

/-- A value as a span. -/
def valueSpan (p : Purpose) (name : String) (arguments : Nat) (glyphs : List Glyph) : List Span :=
  let dividing :=
    if p.quoted then if name = "@" && arguments > 0 then .gaps else .never
    else .characters
  [{ glyphs, dividing }]

/-! ### Tildes -/

/-- The directory that belongs to a name behind a tilde. -/
def homeOf (name : String) : Act (Option String) := do
  if name = "" then Act.value? "HOME"
  else return if name = "root" then some "/root" else none

/-- Takes a tilde and the name behind it; gives what follows. -/
def tilde (p : Purpose) (pieces : List Piece) : Act (List Span × List Piece) := do
  match pieces with
  | .plain '~' :: rest =>
    let name := rest.takeWhile fun
      | .plain c => c ≠ '/' && !(p.assignment && c = ':')
      | _ => false
    let behind := rest.drop name.length
    let ends := match behind with
      | [] | .plain _ :: _ => true
      | _ => false
    match (if ends then Word.text? name else none) with
    | none => return ([], pieces)
    | some name =>
      match ← homeOf name with
      | some home => return ([{ glyphs := Glyph.ofText true home }], behind)
      | none => return ([], pieces)
  | _ => return ([], pieces)

/-- Whether a tilde behind a character of an assignment stands for a directory; `seen` says that there
was an equals sign before. -/
def beforeTilde (p : Purpose) (seen : Bool) (c : Char) : Bool :=
  p.assignment && (if seen then c = ':' else c = '=')

/-! ### Words -/

/-- How the commands in words are run: gives what they write. -/
abbrev Runner := Command → Act String

/-- What a command in a word wrote, without the ends of lines at its end. -/
def withoutLastLines (s : String) : String :=
  String.ofList ((s.toList.reverse.dropWhile (· = '\n')).reverse.filter (· ≠ '\x00'))

/-- The span of a character. -/
def charSpan (p : Purpose) (c : Char) (quoted : Bool) : Span :=
  { glyphs := [.char c (quoted || p.quoted)]
    dividing := if p.operand && !p.quoted && !quoted then .characters else .never }

/-- Adds a span, joined to the last one if both may be divided at characters of the word itself. -/
def addLiteral (spans : List Span) (s : Span) (joins : Bool) : List Span :=
  match spans, joins with
  | last :: before, true =>
    if last.dividing = s.dividing then { last with glyphs := last.glyphs ++ s.glyphs } :: before
    else s :: spans
  | _, _ => s :: spans

mutual

/-- Replaces pieces. `inQuotes` says that they stand between quotation marks, `seen` that there was an
equals sign, `joins` that the last span is a part of the word itself; `done` are the spans so far, the
last first. -/
def pieces (run : Runner) (p : Purpose) :
    Nat → (inQuotes seen joins : Bool) → List Span → List Piece → Act (List Span)
  | 0, _, _, _, done, _ => return done
  | n + 1, inQuotes, seen, joins, done, ps =>
    match ps with
    | [] => return done
    | .mark :: .parameter "@" .value _ :: .mark :: rest =>
      if inQuotes then do
        let spans ← parameter run { p with quoted := p.quoted } n "@" .value []
        pieces run p n true seen false
          ({ glyphs := [.mark] } :: spans.reverse ++ { glyphs := [.mark] } :: done) rest
      else do
        let spans ← parameter run { p with quoted := true } n "@" .value []
        pieces run p n false seen false (spans.reverse ++ done) rest
    | .mark :: rest => pieces run p n (!inQuotes) seen false ({ glyphs := [.mark] } :: done) rest
    | .quoted c :: rest =>
      pieces run p n inQuotes seen false (charSpan p c true :: done) rest
    | .plain c :: rest => do
      let done := addLiteral done (charSpan p c false) joins
      if beforeTilde p seen c then
        let (spans, rest) ← tilde p rest
        pieces run p n inQuotes true spans.isEmpty (spans ++ done) rest
      else pieces run p n inQuotes seen true done rest
    | .parameter name use operand :: rest => do
      let spans ← parameter run { p with quoted := p.quoted || inQuotes } n name use operand
      pieces run p n inQuotes seen false (spans.reverse ++ done) rest
    | .output c :: rest => do
      let quoted := p.quoted || inQuotes
      let glyphs := Glyph.ofText quoted (withoutLastLines (← run c))
      let span : Span := { glyphs, dividing := if quoted then .never else .characters }
      pieces run p n inQuotes seen false (span :: done) rest
    | .calculation text :: rest => do
      let quoted := p.quoted || inQuotes
      let text := Span.text (← word run { tilde := false } n text)
      let glyphs := Glyph.ofText quoted (toString (← Calculation.value text))
      let span : Span := { glyphs, dividing := if quoted then .never else .characters }
      pieces run p n inQuotes seen false (span :: done) rest

/-- Replaces a word. -/
def word (run : Runner) (p : Purpose) : Nat → List Piece → Act (List Span)
  | 0, _ => return []
  | n + 1, ps => do
    let (spans, ps) ← if p.tilde then tilde p ps else pure ([], ps)
    return (← pieces run p n false false spans.isEmpty spans ps).reverse

/-- Replaces a parameter. -/
def parameter (run : Runner) (p : Purpose) (n : Nat) (name : String) (use : Use)
    (operand : List Piece) : Act (List Span) :=
  match n with
  | 0 => return []
  | n + 1 => do
    if use = .unknown then Act.raise "Bad substitution"
    let value ← held p name
    let arguments := (← Act.session).arguments.length
    let whole := valueSpan p name arguments (value.glyphs p.quoted)
    let inside : Purpose := { p with operand := true, tilde := true }
    let needed : Act Unit := do
      if value.isMissing false && (← Act.isOn 'u') then Act.raise (name ++ ": parameter not set")
    match use with
    | .value =>
      needed
      return whole
    | .default empty => if value.isMissing empty then word run inside n operand else return whole
    | .alternative empty => if value.isMissing empty then return [] else word run inside n operand
    | .assign empty =>
      if value.isMissing empty then
        Act.assign name (Span.text (← word run {} n operand))
        parameter run p n name .value []
      else return whole
    | .demand empty =>
      if value.isMissing empty then
        if operand.isEmpty then
          Act.raise (name ++ ": parameter not set" ++ (if empty then " or null" else ""))
        else Act.raise (name ++ ": " ++ Span.text (← word run {} n operand))
      else return whole
    | .length =>
      needed
      return valueSpan p name arguments
        (Glyph.ofText p.quoted (toString (value.glyphs p.quoted).length))
    | .trim atStart longest =>
      needed
      if value.isMissing false then return []
      let pattern := Span.glyphsOf (← word run {} n operand)
      let glyphs := value.glyphs p.quoted
      let rest :=
        if atStart then Trim.atStart pattern glyphs longest else Trim.atEnd pattern glyphs longest
      return valueSpan p name arguments rest
    | .unknown => return []

end

/-- How deep pieces may stand in each other in any word. -/
def depth : Nat := 100000

/-- The fields that a word stands for. -/
def fields (run : Runner) (w : Word) : Act (List String) := do
  let spans ← word run { divides := true } depth w
  let fields := Fields.divide (← Act.session).separators none spans
  return (← fields.mapM Pathnames.expand).flatten

/-- The text that a word stands for. -/
def text (run : Runner) (w : Word) : Act String := do
  return Span.text (← word run {} depth w)

/-- The text that an assignment stands for. -/
def assignment (run : Runner) (w : Word) : Act String := do
  return Span.text (← word run { assignment := true, tilde := false } depth w)

/-- The text that a document stands for. -/
def document (run : Runner) (w : Word) : Act String := do
  return Span.text (← word run { quoted := true, tilde := false } depth w)

/-- The pattern that a word stands for. -/
def pattern (run : Runner) (w : Word) : Act (List Glyph) := do
  return Span.glyphsOf (← word run {} depth w)

end Expansion

end Stepflow.Shell
