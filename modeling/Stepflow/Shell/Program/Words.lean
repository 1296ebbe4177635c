import Stepflow.Shell.Condition
import Stepflow.Shell.Format
import Stepflow.Shell.Program.Places
import Stepflow.Shell.Search

/-!
# Programs that write words

They write their arguments, parts of names, numbers in order, or what they know of their surroundings.
-/

namespace Stepflow.Shell.Program

open Act

/-! ### Arguments -/

namespace Echo

/-- How words are written. -/
structure Style where
  /-- Whether a line ends behind them. -/
  line : Bool := true
  /-- Whether escapes stand for characters. -/
  escapes : Bool := false

/-- Takes the options in front; what is no option is a word. -/
def style : Style → List String → Style × List String
  | s, [] => (s, [])
  | s, w :: rest =>
    match w.toList with
    | '-' :: c :: cs =>
      if (c :: cs).all ['n', 'e', 'E'].contains then
        style ((c :: cs).foldl (fun s c =>
          if c = 'n' then { s with line := false } else { s with escapes := c = 'e' }) s) rest
      else (s, w :: rest)
    | _ => (s, w :: rest)

/-- Writes its arguments. -/
def program : Body := fun arguments => do
  let (s, words) := style {} arguments
  let text := " ".intercalate words
  let (text, stops) := if s.escapes then Escapes.expandText text else (text, false)
  emit (text ++ if s.line && !stops then "\n" else "")
  return 0

end Echo

/-- Writes a format with arguments. -/
def printf : Body := fun arguments => do
  match (if arguments.head? = some "--" then arguments.tail else arguments) with
  | [] => missingOperand 1
  | format :: arguments =>
    let status ← Format.print format arguments
    if !(← flush) then unwritable "write error"
    return status

/-- Writes a line again and again. -/
def yes : Body := Options.program {} 1 fun a => do
  let line := (if a.operands.isEmpty then "y" else " ".intercalate a.operands) ++ "\n"
  let block := String.join (List.replicate (65536 / line.length + 1) line)
  for _ in List.range 1024 do emit block
  return 0

/-! ### Names -/

namespace Basename

/-- A name without an ending, unless nothing else is in it. -/
def without (ending name : String) : String :=
  let cs := name.toList
  let kept := cs.take (cs.length - ending.length)
  if ending ≠ "" && kept ≠ [] && cs = kept ++ ending.toList then String.ofList kept else name

/-- The last name of a path, of which a solidus is one. -/
def of (path : String) : String := if bare path = "/" then "/" else lastName path

/-- Writes the last names of paths. -/
def program : Body :=
  Options.program
    { plain := ['a', 'z'], valued := ['s'], leading := true
      words := [("multiple", 'a', false), ("suffix", 's', true), ("zero", 'z', false)] } 1
    fun a => do
      let stop := if a.has 'z' then "\x00" else "\n"
      match a.operands with
      | [] => missingOperand 1
      | path :: rest =>
        if a.has 'a' || a.has 's' then
          for p in path :: rest do emit (without ((a.value? 's').getD "") (of p) ++ stop)
          return 0
        else match rest with
          | _ :: extra :: _ => extraOperand 1 extra
          | rest =>
            emit (without (rest.headD "") (of path) ++ stop)
            return 0

end Basename

/-- The path of the directory in which a path ends. -/
def directoryOf (path : String) : String :=
  let cs := (bare path).toList
  let above := cs.take (cs.length - (cs.reverse.takeWhile (· ≠ '/')).length)
  if cs = ['/'] then "/" else if above = [] then "." else bare (String.ofList above)

/-- Writes the directories in which paths end. -/
def dirname : Body :=
  Options.program { plain := ['z'], words := [("zero", 'z', false)] } 1 fun a => do
    if a.operands.isEmpty then return ← missingOperand 1
    for p in a.operands do emit (directoryOf p ++ if a.has 'z' then "\x00" else "\n")
    return 0

/-- Writes the working directory. -/
def pwd : Body := Options.program { plain := ['L', 'P'] } 1 fun _ => do
  emit (Octets.ofText (FilePath.absolute (← session).place) ++ "\n")
  return 0

/-- Writes where paths lead. -/
def realpath : Body :=
  Options.program { plain := ['e', 'm', 's', 'q', 'L', 'P', 'z'] } 1 fun a => do
    if a.operands.isEmpty then return ← missingOperand 1
    forEach a.operands fun path => do
      let files := (← world).files
      let origin := (← session).place
      let asked := Octets.toText path
      let place ← match files.follow origin asked with
        | .ok place => pure place
        | .error o =>
          complainOf path (.obstacle o)
          return 1
      match files.findAt origin asked, files.find place.dropLast with
      | .ok _, _ | .error .missing, .ok _ =>
        emit (Octets.ofText (FilePath.absolute place) ++ "\n")
        return 0
      | .error o, _ =>
        complainOf path (.obstacle o)
        return 1

/-- Writes the paths of programs. -/
def which : Body := Options.program { plain := ['a', 's'] } 2 fun a =>
  forEach a.operands fun name => do
    match ← Search.program (← Search.path) name with
    | .program _ path =>
      if !a.has 's' then emit (path ++ "\n")
      return 0
    | _ => return 1

/-! ### Numbers -/

namespace Sequence

/-- A decimal: its digits as a whole number, and how many of them stand behind the point. -/
structure Number where
  /-- The digits. -/
  digits : Int
  /-- How many stand behind the point. -/
  places : Nat
  deriving Inhabited

/-- The number that a word is. -/
def number? (w : String) : Option Number :=
  let (negative, cs) := match w.toList with
    | '-' :: cs => (true, cs)
    | '+' :: cs => (false, cs)
    | cs => (false, cs)
  let mantissa := cs.takeWhile fun c => c.isDigit || c = '.'
  let whole := mantissa.takeWhile (· ≠ '.')
  let fraction := mantissa.drop (whole.length + 1)
  let exponent : Option Int := match cs.drop mantissa.length with
    | [] => some 0
    | e :: rest => if e = 'e' || e = 'E' then (String.ofList rest).toInt? else none
  if fraction.contains '.' || (whole ++ fraction).isEmpty then none
  else exponent.map fun e =>
    let value : Nat := (whole ++ fraction).foldl (fun n c => n * 10 + (c.toNat - '0'.toNat)) 0
    let places : Int := fraction.length - e
    let value := if places < 0 then value * Nat.pow 10 (-places).toNat else value
    { digits := if negative then -(value : Int) else value, places := places.toNat }

/-- The digits of a number with so many places. -/
def Number.scaled (n : Number) (places : Nat) : Int := n.digits * (Nat.pow 10 (places - n.places) : Nat)

/-- The text of digits, of which some stand behind the point, with zeros in front up to a width. -/
def text (places width : Nat) (digits : Int) : List Char :=
  let all := padLeft '0' (places + 1) (digitsOf digits.natAbs)
  let whole := all.take (all.length - places)
  let cs := if places = 0 then whole else whole ++ '.' :: all.drop (all.length - places)
  if digits < 0 then '-' :: padLeft '0' (width - 1) cs else padLeft '0' width cs

/-- How many numbers there are at most. -/
def limit : Nat := 5000000

/-- The numbers from one to another. -/
def numbers (first step last : Int) : List Int :=
  if step = 0 || (0 < step && last < first) || (step < 0 && first < last) then []
  else
    let count := ((last - first).tdiv step).toNat + 1
    (List.range (min count limit)).map fun (k : Nat) => first + step * (k : Int)

/-- The options. -/
def options : Options :=
  { plain := ['w'], valued := ['f', 's'], leading := true
    words := [("equal-width", 'w', false), ("format", 'f', true), ("separator", 's', true)] }

/-- Whether an argument is a number that looks like an option. -/
def isNegative (w : String) : Bool :=
  match w.toList with
  | '-' :: c :: _ => c.isDigit || c = '.'
  | _ => false

/-- Arguments in which options end in front of a negative number. -/
def withEnd : List String → List String
  | [] => []
  | w :: rest =>
    if isNegative w then "--" :: w :: rest
    else if w.toList.head? = some '-' then w :: withEnd rest
    else w :: rest

/-- Writes numbers in order. -/
def program : Body := fun arguments => options.program 1 (fun a => do
  let bad := a.operands.find? fun w => (number? w).isNone
  match a.operands, bad with
  | [], _ => missingOperand 1
  | _ :: _ :: _ :: extra :: _, _ => extraOperand 1 extra
  | _, some w => misused 1 ("invalid floating point argument: " ++ quoted w)
  | ws, none =>
    let ns := ws.filterMap number?
    let one : Number := { digits := 1, places := 0 }
    let (first, step, last) := match ns with
      | [l] => (one, one, l)
      | [f, l] => (f, one, l)
      | f :: s :: l :: _ => (f, s, l)
      | [] => (one, one, one)
    if step.digits = 0 then misused 1 ("invalid Zero increment value: " ++ quoted (ws[1]?.getD ""))
    else
      let places := max first.places step.places
      let scale := max places last.places
      let unscale (n : Int) : Int := n / (Nat.pow 10 (scale - places) : Nat)
      let all := (numbers (first.scaled scale) (step.scaled scale) (last.scaled scale)).map unscale
      let width := if a.has 'w' then (all.map fun n => (text places 0 n).length).foldl max 0 else 0
      let shown ← match a.value? 'f' with
        | none => pure (all.map fun n => String.ofList (text places width n))
        | some format =>
          all.mapM fun n => do
            let _ ← Format.print format [String.ofList (text places 0 n)]
            let s := (← session).unsaid
            change fun s => { s with unsaid := "" }
            return s
      if !shown.isEmpty then emit (((a.value? 's').getD "\n").intercalate shown ++ "\n")
      return 0) (withEnd arguments)

end Sequence

/-! ### Surroundings -/

/-- The variables that processes get, as far as they were set. -/
def exportedVariables (s : Session) : List (String × String) :=
  s.ownVariables.filterMap fun (name, v) => if v.exported then v.value.map fun value => (name, value) else none

/-- Writes the values of variables. -/
def printenv : Body := Options.program { plain := ['0'] } 2 fun a => do
  let s ← session
  if a.operands.isEmpty then
    for (name, value) in exportedVariables s do emit (name ++ "=" ++ value ++ "\n")
    return 0
  forEach a.operands fun name => do
    match s.exported name with
    | some value =>
      emit (value ++ "\n")
      return 0
    | none => return 1

/-- Tells whether a condition holds. -/
def test : Body := fun arguments => do return if ← Condition.holds arguments then 0 else 1

/-- Tells whether a condition between brackets holds. -/
def bracket : Body := fun arguments =>
  if arguments.getLast? = some "]" then test arguments.dropLast
  else do
    complain "missing ']'"
    return 2

/-- Waits as long as its arguments say, if they say so. -/
def sleep : Body := Options.program {} 1 fun a => do
  let isTime (w : String) : Bool :=
    match w.toList.reverse with
    | c :: rest =>
      let digits := if ['s', 'm', 'h', 'd'].contains c then rest.reverse else w.toList
      (Sequence.number? (String.ofList digits)).isSome
    | [] => false
  match a.operands, a.operands.filter fun w => !isTime w with
  | [], _ => missingOperand 1
  | _, [] => return 0
  | _, bad =>
    for w in bad do complain ("invalid time interval " ++ quoted w)
    hint
    return 1

/-- Writes the name of the system. -/
def uname : Body := Options.program { plain := ['s', 'o'] } 1 fun a => do
  emit (if a.has 'o' then "GNU/Linux\n" else "Linux\n")
  return 0

/-- Writes the name of the user. -/
def whoami : Body := Options.program {} 1 fun _ => do
  emit "root\n"
  return 0

end Stepflow.Shell.Program
