import Stepflow.Shell.Program.Showing
import Stepflow.Shell.Regular

/-!
# Expressions of words

Each argument is a part of an expression: an operator, a parenthesis or a value, which is a text or a
whole number of any size. An operator binds the less the earlier it is tried.
-/

namespace Stepflow.Shell.Program.Reckon

open Act

/-- Why there is no value. -/
inductive Failure where
  /-- An argument is missing behind another one. -/
  | missing (behind : String)
  /-- An argument is not expected. -/
  | unexpected (word : String)
  /-- A closing parenthesis is missing behind an argument. -/
  | unclosed (behind : String)
  /-- A closing parenthesis is expected in the place of an argument. -/
  | notClosing (word : String)
  /-- A value is no whole number. -/
  | noInteger
  /-- A number is divided by zero. -/
  | division
  /-- A regular expression is none. -/
  | expression (e : Regular.Flaw)

/-- The wording of a failure. -/
def Failure.message : Failure → String
  | .missing behind => "syntax error: missing argument after " ++ quoted behind
  | .unexpected word => "syntax error: unexpected argument " ++ quoted word
  | .unclosed behind => "syntax error: expecting ')' after " ++ quoted behind
  | .notClosing word => "syntax error: expecting ')' instead of " ++ quoted word
  | .noInteger => "non-integer argument"
  | .division => "division by zero"
  | .expression e => e.message

/-- The number with which the program ends if an expression cannot be read or has no value. -/
def trouble : Nat := 2

/-- The whole number that a text is. -/
def integer? (s : String) : Option Int :=
  let digits (cs : List Char) : Option Nat :=
    if cs.isEmpty || !cs.all Char.isDigit then none
    else some (cs.foldl (fun n c => n * 10 + (c.toNat - '0'.toNat)) 0)
  match s.toList with
  | '-' :: cs => (digits cs).map fun n => -(n : Int)
  | cs => (digits cs).map fun n => (n : Int)

/-- Whether a value counts as false: nothing, or zero. -/
def isNull (s : String) : Bool := s = "" || integer? s = some 0

/-- The arguments to come, and the last one. -/
structure Words where
  /-- The arguments to come. -/
  rest : List String
  /-- The last one. -/
  last : String

/-- A part of the reading of an expression; the flag says whether its value counts. -/
abbrev Part := (counts : Bool) → Words → Except Failure (String × Words)

/-- Whether one text comes before another one. -/
def textOrder (a b : String) : Ordering := compare (Octets.toBytes a) (Octets.toBytes b)

/-- The value of a comparison. -/
def compared (op a b : String) : String :=
  let o := match integer? a, integer? b with
    | some x, some y => compare x y
    | _, _ => textOrder a b
  let holds : Bool := match op with
    | "<" => o = .lt
    | "<=" => o ≠ .gt
    | "=" | "==" => o = .eq
    | "!=" => o ≠ .eq
    | ">=" => o ≠ .lt
    | _ => o = .gt
  if holds then "1" else "0"

/-- The value of an operation on numbers. -/
def operated (op a b : String) : Except Failure String :=
  match integer? a, integer? b with
  | some x, some y =>
    match op with
    | "+" => .ok (toString (x + y))
    | "-" => .ok (toString (x - y))
    | "*" => .ok (toString (x * y))
    | "/" => if y = 0 then .error .division else .ok (toString (x.tdiv y))
    | _ => if y = 0 then .error .division else .ok (toString (x.tmod y))
  | _, _ => .error .noInteger

/-- Whether an expression remembers anything. -/
def hasGroup : Regular → Bool
  | .both a b | .either a b => hasGroup a || hasGroup b
  | .times a _ _ => hasGroup a
  | .group _ _ => true
  | _ => false

/-- Fits an expression to the start of a text: what it remembers, or how many characters fit. -/
def fitted (s pattern : String) : Except Failure String :=
  match Regular.read {} pattern.toList with
  | .error e => .error (.expression e)
  | .ok r =>
    let subject : Regular.Subject := { text := s.toList.toArray }
    match subject.run r 0 [] fun j groups => some { stop := j, groups } with
    | some f =>
      if hasGroup r then
        .ok (match f.groups.lookup 1 with
          | some (i, j) => String.ofList (subject.text.extract i j).toList
          | none => "")
      else .ok (toString f.stop)
    | none => .ok (if hasGroup r then "" else "0")

/-- A part of a text. -/
def part (s start size : String) : String :=
  match integer? start, integer? size with
  | some i, some n =>
    if i ≤ 0 || n ≤ 0 then "" else String.ofList ((s.toList.drop (i.toNat - 1)).take n.toNat)
  | _, _ => ""

/-- The place of the first character of a text that is one of some. -/
def place (s chars : String) : String :=
  toString ((s.toList.findIdx? chars.toList.contains).elim 0 (· + 1))

/-- The operators on two values, those that bind least first. -/
def levels : List (List String) :=
  [["|"], ["&"], ["<", "<=", "=", "==", "!=", ">=", ">"], ["+", "-"], ["*", "/", "%"], [":"]]

/-- The value of an operator on two values. -/
def combined (op a b : String) : Except Failure String :=
  if op = "|" then .ok (if !isNull a then a else if isNull b then "0" else b)
  else if op = "&" then .ok (if isNull a || isNull b then "0" else a)
  else if op = ":" then fitted a b
  else if ["+", "-", "*", "/", "%"].contains op then operated op a b
  else .ok (compared op a b)

/-- Takes an argument that must be there. -/
def take (w : Words) : Except Failure (String × Words) :=
  match w.rest with
  | [] => .error (.missing w.last)
  | a :: rest => .ok (a, ⟨rest, a⟩)

mutual

/-- Reads an expression whose operators are of a level or bind more. -/
def level : Nat → Nat → Part
  | 0, _ => fun _ w => .error (.missing w.last)
  | n + 1, k => fun counts w =>
    match levels[k]? with
    | none => simple n counts w
    | some ops => do
      let (a, w) ← level n (k + 1) counts w
      operations n k ops a counts w

/-- Reads the operators of a level behind a value. -/
def operations : Nat → Nat → List String → String → Part
  | 0, _, _, a => fun _ w => .ok (a, w)
  | n + 1, k, ops, a => fun counts w =>
    match w.rest with
    | op :: rest =>
      if !ops.contains op then .ok (a, w)
      else do
        let needed := if op = "|" then isNull a else if op = "&" then !isNull a else true
        let (b, w) ← level n (k + 1) (counts && needed) ⟨rest, op⟩
        let value ← if counts then combined op a b else pure ""
        operations n k ops value counts w
    | [] => .ok (a, w)

/-- Reads a value, or a name with values behind it. -/
def simple : Nat → Part
  | 0 => fun _ w => .error (.missing w.last)
  | n + 1 => fun counts w => do
    let value (w : Words) : Except Failure (String × Words) := simple n counts w
    let (a, rest) ← take w
    match a with
    | "match" =>
      let (s, w) ← value rest
      let (p, w) ← value w
      return (← if counts then fitted s p else pure "", w)
    | "substr" =>
      let (s, w) ← value rest
      let (i, w) ← value w
      let (k, w) ← value w
      return (part s i k, w)
    | "index" =>
      let (s, w) ← value rest
      let (cs, w) ← value w
      return (place s cs, w)
    | "length" =>
      let (s, w) ← value rest
      return (toString s.length, w)
    | "+" => take rest
    | "(" =>
      let (v, w) ← level n 0 counts rest
      match w.rest with
      | ")" :: more => return (v, ⟨more, ")"⟩)
      | [] => throw (.unclosed w.last)
      | other :: _ => throw (.notClosing other)
    | ")" => throw (.unexpected ")")
    | a => return (a, rest)

end

/-- The value of an expression. -/
def value (words : List String) : Except Failure String := do
  let (v, w) ← level (words.length * 20 + 20) 0 true ⟨words, ""⟩
  match w.rest with
  | [] => return v
  | extra :: _ => throw (.unexpected extra)

/-- Writes the value of an expression. -/
def program : Body := fun arguments => do
  match (if arguments.head? = some "--" then arguments.tail else arguments) with
  | [] => missingOperand trouble
  | words =>
    match value words with
    | .error e =>
      complain e.message
      return trouble
    | .ok v =>
      emit (v ++ "\n")
      return if isNull v then 1 else 0

end Stepflow.Shell.Program.Reckon
