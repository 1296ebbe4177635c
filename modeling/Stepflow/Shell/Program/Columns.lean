import Stepflow.Shell.Program.Showing

/-!
# Parts of lines

Lines are cut into fields or bytes, of which some are written; or lines of several files are put beside
each other; or long lines are broken.
-/

namespace Stepflow.Shell.Program

open Act

namespace Cut

/-- Numbers from one to another, or to the end. -/
abbrev Span := Nat × Option Nat

/-- What is wrong with a list. -/
inductive Flaw where
  /-- A number is zero. -/
  | zero
  /-- A range has its ends the wrong way around. -/
  | decreasing
  /-- A range has no ends. -/
  | noEnds
  /-- A number is none. -/
  | invalid (value : String)

/-- The wording of a flaw. -/
def Flaw.message (fields : Bool) : Flaw → String
  | .zero => (if fields then "fields are" else "byte/character positions are") ++ " numbered from 1"
  | .decreasing => "invalid decreasing range"
  | .noEnds => "invalid range with no endpoint: -"
  | .invalid value =>
    "invalid " ++ (if fields then "field value " else "byte/character position ") ++ quoted value

/-- What is left of a text behind its digits. -/
def unread (cs : List Char) : String := String.ofList (cs.dropWhile Char.isDigit)

/-- The span that a part of a list is. -/
def spanOf (part : List Char) : Except Flaw Span :=
  let text := String.ofList part
  let low := part.takeWhile (· ≠ '-')
  match part.drop low.length with
  | [] =>
    match text.toNat? with
    | some 0 => .error .zero
    | some n => .ok (n, some n)
    | none => if part.isEmpty then .error .zero else .error (.invalid (unread part))
  | _ :: high =>
    if low.isEmpty && high.isEmpty then .error .noEnds
    else
      let start := if low.isEmpty then some 1 else (String.ofList low).toNat?
      let stop := if high.isEmpty then some none else (String.ofList high).toNat?.map some
      match start, stop with
      | some 0, _ => .error .zero
      | some a, some (some b) => if b < a then .error .decreasing else .ok (a, some b)
      | some a, some none => .ok (a, none)
      | none, _ => .error (.invalid text)
      | _, _ => .error (.invalid (unread high))

/-- The spans of a list. -/
def spansOf (value : String) : Except Flaw (List Span) :=
  let cs := value.toList.map fun c => if c = ' ' then ',' else c
  (Text.splitAt ',' cs).mapM spanOf

/-- Whether a number is in a list. -/
def isIn (spans : List Span) (n : Nat) : Bool :=
  spans.any fun s => s.1 ≤ n && s.2.all (n ≤ ·)

/-- The options. -/
def options : Options :=
  { plain := ['n', 's', 'z'], valued := ['b', 'c', 'd', 'f']
    words := [("bytes", 'b', true), ("characters", 'c', true), ("delimiter", 'd', true),
      ("fields", 'f', true), ("complement", 'C', false), ("only-delimited", 's', false),
      ("output-delimiter", 'O', true)] }

/-- Puts texts together with another one between them. -/
def joined (between : List Char) (parts : List (List Char)) : List Char := between.intercalate parts

/-- The parts of a line that are written, with the line's end; nothing if it is left out. -/
def ofFields (a : Arguments) (separator : Char) (isWanted : Nat → Bool) (l : List Char) :
    Option (List Char) :=
  if !l.contains separator then if a.has 's' then none else some l
  else
    let fields := Text.splitAt separator l
    let wanted := ((List.range fields.length).zip fields).filterMap fun (k, f) =>
      if isWanted (k + 1) then some f else none
    some (joined (((a.value? 'O').map String.toList).getD [separator]) wanted)

/-- The bytes of a line that are written; what may stand between those that are not neighbours. -/
def ofBytes (a : Arguments) (isWanted : Nat → Bool) (l : List Char) : List Char :=
  let wanted := ((List.range l.length).zip l).filter fun p => isWanted (p.1 + 1)
  match (a.value? 'O').map String.toList with
  | none => wanted.map Prod.snd
  | some between =>
    joined between ((wanted.splitBy fun p q => p.1 + 1 = q.1).map fun g => g.map Prod.snd)

/-- Writes parts of lines. -/
def program : Body := options.program 1 fun a => do
  let lists := a.options.filter fun o => ['b', 'c', 'f'].contains o.1
  match lists with
  | [] => misused 1 "you must specify a list of bytes, characters, or fields"
  | _ :: _ :: _ => misused 1 "only one list may be specified"
  | [(letter, value)] =>
    let fields := letter = 'f'
    let separator := ((a.value? 'd').map String.toList).getD ['\t']
    if separator.length > 1 then misused 1 "the delimiter must be a single character"
    else if a.has 'd' && !fields then
      misused 1 "an input delimiter may be specified only when operating on fields"
    else match spansOf (value.getD "") with
      | .error flaw => misused 1 (flaw.message fields)
      | .ok spans =>
        let isWanted (n : Nat) : Bool := isIn spans n != a.has 'C'
        forEach (inputs a.operands) fun name => do
          match ← contents name with
          | .error t =>
            complainOf name t
            return 1
          | .ok t =>
            let ls := lineTexts t
            emit (ofLines (if fields then ls.filterMap (ofFields a (separator.headD '\x00') isWanted)
              else ls.map (ofBytes a isWanted)))
            return 0

end Cut

namespace Paste

/-- The separators that a value gives. -/
def separators : List Char → List (List Char)
  | [] => []
  | '\\' :: c :: rest =>
    (match c with
      | 'n' => ['\n']
      | 't' => ['\t']
      | '0' => []
      | c => [c]) :: separators rest
  | c :: rest => [c] :: separators rest

/-- Puts texts together with separators between them, which are used in turn. -/
def join (marks : List (List Char)) (parts : List (List Char)) : List Char :=
  match parts with
  | [] => []
  | first :: rest =>
    first ++ ((List.range rest.length).zip rest).flatMap fun (k, p) =>
      (marks[k % marks.length]?).getD [] ++ p

/-- The lines of several texts beside each other. -/
def rows (marks : List (List Char)) (columns : List (List (List Char))) : List (List Char) :=
  let height := (columns.map List.length).foldl max 0
  (List.range height).map fun k => join marks (columns.map fun column => (column[k]?).getD [])

/-- The options. -/
def options : Options :=
  { plain := ['s'], valued := ['d'], words := [("serial", 's', false), ("delimiters", 'd', true)] }

/-- Every so many lines from one on: those that are left for one of several readers. -/
def everyNth (step start : Nat) (ls : List (List Char)) : List (List Char) :=
  ((List.range ls.length).zip ls).filterMap fun (k, l) => if k % step = start then some l else none

/-- Writes lines of files beside each other, or the lines of each file in one. -/
def program : Body := options.program 1 fun a => do
  let marks := match separators (((a.value? 'd').map String.toList).getD ['\t']) with
    | [] => [[]]
    | marks => marks
  let shares := (inputs a.operands).count "-"
  let mut columns : List (List (List Char)) := []
  let mut status := 0
  let mut input : Option (List (List Char)) := none
  let mut share := 0
  for name in inputs a.operands do
    let found ← match name, input with
      | "-", some ls => pure (.ok ls)
      | _, _ => Except.map lineTexts <$> contents name
    match found with
    | .ok ls =>
      if name = "-" then
        columns := columns ++ [everyNth shares share ls]
        share := share + 1
        input := some ls
      else columns := columns ++ [ls]
    | .error t =>
      complainOf name t
      if !a.has 's' then return 1
      status := 1
  emit (ofLines (if a.has 's' then columns.map (join marks) else rows marks columns))
  return status

end Paste

namespace Fold

/-- Breaks a line so that no part is longer than a width; behind the last blank in a part if `blanks` is
set. The first number bounds the parts. -/
def broken (width : Nat) (blanks : Bool) : Nat → List Char → List (List Char)
  | 0, l => [l]
  | n + 1, l =>
    if l.length ≤ width then [l]
    else
      let part := l.take width
      let kept := (part.reverse.dropWhile (· ≠ ' ')).length
      let size := if blanks && kept > 0 then kept else width
      l.take size :: broken width blanks n (l.drop size)

/-- The options. -/
def options : Options :=
  { plain := ['b', 's'], valued := ['w']
    words := [("bytes", 'b', false), ("spaces", 's', false), ("width", 'w', true)] }

/-- Breaks long lines. -/
def program : Body := options.program 1 fun a => do
  let value := (a.value? 'w').getD "80"
  match value.toNat?.filter (· > 0) with
  | none =>
    let reason := if value.toNat? = some 0 then ": Numerical result out of range" else ""
    failing ("invalid number of columns: " ++ quoted value ++ reason)
  | some width =>
    forEach (inputs a.operands) fun name => do
      match ← contents name with
      | .error t =>
        complainOf name t
        return 1
      | .ok t =>
        let ls := (lines t).map fun l =>
          let text := lineText l
          ['\n'].intercalate (broken width (a.has 's') text.length text) ++ l.drop text.length
        emit (String.ofList ls.flatten)
        return 0

end Fold

end Stepflow.Shell.Program
