import Stepflow.Shell.Variables

/-!
# Calculations

A calculation works on whole numbers of 64 bits, which wrap around. Its operators are those of the usual
order: unary, product, sum, shift, comparison, equality, the three on bits, the two on truths, choice,
assignment. Names stand for variables.

Parts whose value does not matter are read but not run.
-/

namespace Stepflow.Shell

namespace Calculation

/-- A token of a calculation. -/
inductive Token where
  /-- A number. -/
  | number (n : Int)
  /-- A name. -/
  | name (s : String)
  /-- An operator. -/
  | op (s : String)
  /-- Something else. -/
  | bad
  deriving DecidableEq, Inhabited

/-- The number of numbers there are. -/
def modulus : Nat := 18446744073709551616

/-- The number that a whole number wraps around to. -/
def wrap (n : Int) : Int := n.bmod modulus

/-- The greatest number. -/
def greatest : Int := 9223372036854775807

/-- The least number. -/
def least : Int := -9223372036854775808

/-! ### Numbers -/

/-- The value of a digit. -/
def digitValue (c : Char) : Nat :=
  if c.isDigit then c.toNat - '0'.toNat
  else if 'a' ≤ c && c ≤ 'f' then c.toNat - 'a'.toNat + 10
  else if 'A' ≤ c && c ≤ 'F' then c.toNat - 'A'.toNat + 10
  else 16

/-- Reads digits in a base, and gives what follows. -/
def digits (base : Nat) (cs : List Char) : Nat × List Char :=
  let ds := cs.takeWhile fun c => digitValue c < base
  (ds.foldl (fun n c => n * base + digitValue c) 0, cs.drop ds.length)

/-- Reads a number that begins with a digit: in base 16 behind `0x`, in base 8 behind another zero. -/
def unsigned : List Char → Nat × List Char
  | '0' :: x :: rest =>
    if x = 'x' || x = 'X' then
      match rest with
      | d :: _ => if digitValue d < 16 then digits 16 rest else (0, x :: rest)
      | [] => (0, [x])
    else digits 8 ('0' :: x :: rest)
  | cs => digits 10 cs

/-- Whether a character is blank in numbers. -/
def isBlank (c : Char) : Bool := c = ' ' || ('\t' ≤ c && c ≤ '\r')

/-- Reads a number with a sign and blanks in front of it; gives what follows, and nothing if there is no
number. -/
def signed? (decimal : Bool) (cs : List Char) : Option (Int × List Char) :=
  let cs := cs.dropWhile isBlank
  let (negative, cs) := match cs with
    | '-' :: rest => (true, rest)
    | '+' :: rest => (false, rest)
    | _ => (false, cs)
  match cs with
  | [] => none
  | c :: _ =>
    if c.isDigit then
      let (n, rest) := if decimal then digits 10 cs else unsigned cs
      some (if negative then -n else n, rest)
    else none

/-- The number that a whole text is; the text of nothing is zero. -/
def wholeNumber? (s : String) : Option Int :=
  match signed? false s.toList with
  | none => if s.toList.all isBlank then some 0 else none
  | some (n, rest) => if rest.all isBlank && least ≤ n && n ≤ greatest then some n else none

/-! ### Tokens -/

/-- The operators, longer ones in front of shorter ones that they begin with. -/
def operators : List String :=
  ["<<=", ">>=", "<<", ">>", "<=", ">=", "==", "!=", "&&", "||", "+=", "-=", "*=", "/=", "%=", "&=", "|=",
    "^=", "+", "-", "*", "/", "%", "<", ">", "=", "!", "~", "&", "|", "^", "?", ":", "(", ")"]

/-- Takes a token from the start of a text. -/
def token (cs : List Char) : Token × List Char :=
  match cs with
  | [] => (.bad, [])
  | c :: _ =>
    if c.isDigit then
      let (n, rest) := unsigned cs
      (.number (min n greatest), rest)
    else if Name.isStart c then
      let name := cs.takeWhile Name.isPart
      (.name (String.ofList name), cs.drop name.length)
    else match operators.find? fun o => o.toList.isPrefixOf cs with
      | some o => (.op o, cs.drop o.length)
      | none => (.bad, [])

/-- The tokens of a text. -/
def tokens : Nat → List Char → List Token
  | 0, _ => []
  | n + 1, cs =>
    match cs.dropWhile (dividingBlanks.contains ·) with
    | [] => []
    | c :: rest =>
      let (t, rest) := token (c :: rest)
      t :: tokens n rest
where
  /-- The blanks between tokens. -/
  dividingBlanks : List Char := [' ', '\t', '\n']

/-! ### Values -/

/-- Complains about a calculation. -/
def fail {α : Type} (text message : String) : Act α :=
  Act.raise ("arithmetic expression: " ++ message ++ ": \"" ++ text ++ "\"")

/-- The value of a variable as a number. -/
def variableValue (name : String) : Act Int := do
  let s ← Act.value name
  match wholeNumber? s with
  | some n => return n
  | none => Act.raise ("Illegal number: " ++ s)

/-- One or zero. -/
def truth (b : Bool) : Int := if b then 1 else 0

/-- The bits of a number. -/
def bits (n : Int) : Nat := (n % modulus).toNat

/-- How far a shift goes. -/
def shiftBy (n : Int) : Nat := bits n % 64

/-- The value of an operation on two numbers; none if it is a division by zero. -/
def operate? (op : String) (a b : Int) : Option Int :=
  match op with
  | "*" => some (wrap (a * b))
  | "/" => if b = 0 then none else some (wrap (a.tdiv b))
  | "%" => if b = 0 then none else some (wrap (a.tmod b))
  | "+" => some (wrap (a + b))
  | "-" => some (wrap (a - b))
  | "<<" => some (wrap (a * (Nat.pow 2 (shiftBy b) : Nat)))
  | ">>" => some (a / (Nat.pow 2 (shiftBy b) : Nat))
  | "<" => some (truth (a < b))
  | "<=" => some (truth (a ≤ b))
  | ">" => some (truth (a > b))
  | ">=" => some (truth (a ≥ b))
  | "==" => some (truth (a = b))
  | "!=" => some (truth (a ≠ b))
  | "&" => some (wrap (bits a &&& bits b : Nat))
  | "^" => some (wrap (bits a ^^^ bits b : Nat))
  | "|" => some (wrap (bits a ||| bits b : Nat))
  | _ => some b

/-- How loosely an operator binds. -/
def rank? : Token → Option Nat
  | .op o =>
    if o = "*" || o = "/" || o = "%" then some 0
    else if o = "+" || o = "-" then some 1
    else if o = "<<" || o = ">>" then some 2
    else if o = "<" || o = "<=" || o = ">" || o = ">=" then some 3
    else if o = "==" || o = "!=" then some 4
    else if o = "&" then some 5
    else if o = "^" then some 6
    else if o = "|" then some 7
    else none
  | _ => none

/-- A rank above all ranks. -/
def loosest : Nat := 8

/-- The operation that an assignment does first. -/
def assignmentOp? : Token → Option String
  | .op "=" => some ""
  | .op o =>
    if ["+=", "-=", "*=", "/=", "%=", "<<=", ">>=", "&=", "|=", "^="].contains o then
      some (String.ofList o.toList.dropLast)
    else none
  | _ => none

/-- The value of an operation on two numbers. -/
def operate (text op : String) (a b : Int) : Act Int :=
  match operate? op a b with
  | some n => return n
  | none => fail text "division by zero"

/-- The value of a part of a calculation, and the tokens behind it. -/
abbrev Part := Act (Int × List Token)

mutual

/-- The value of an assignment or a choice. `runs` says whether the value matters. -/
def assignment (text : String) : Nat → (runs : Bool) → List Token → Part
  | 0, _, _ => fail text "expecting primary"
  | n + 1, runs, ts =>
    match ts with
    | .name name :: t :: rest =>
      match assignmentOp? t with
      | none => choice text n runs ts
      | some op => do
        let (value, rest) ← assignment text n runs rest
        if !runs then return (value, rest)
        let value ← if op = "" then pure value else do operate text op (← variableValue name) value
        Act.assign name (toString value)
        return (value, rest)
    | _ => choice text n runs ts

/-- The value of a choice. -/
def choice (text : String) : Nat → Bool → List Token → Part
  | 0, _, _ => fail text "expecting primary"
  | n + 1, runs, ts => do
    let (a, rest) ← disjunction text n runs ts
    match rest with
    | .op "?" :: rest =>
      let (b, rest) ← assignment text n (runs && a ≠ 0) rest
      match rest with
      | .op ":" :: rest =>
        let (c, rest) ← choice text n (runs && a = 0) rest
        return (if a ≠ 0 then b else c, rest)
      | _ => fail text "expecting ':'"
    | rest => return (a, rest)

/-- Whether one of some values is true. -/
def disjunction (text : String) : Nat → Bool → List Token → Part
  | 0, _, _ => fail text "expecting primary"
  | n + 1, runs, ts => do
    let (a, rest) ← conjunction text n runs ts
    match rest with
    | .op "||" :: rest =>
      let (b, rest) ← disjunction text n (runs && a = 0) rest
      return (truth (a ≠ 0 || b ≠ 0), rest)
    | rest => return (a, rest)

/-- Whether all of some values are true. -/
def conjunction (text : String) : Nat → Bool → List Token → Part
  | 0, _, _ => fail text "expecting primary"
  | n + 1, runs, ts => do
    let (a, rest) ← primary text n runs ts
    let (a, rest) ← operations text n runs a loosest rest
    match rest with
    | .op "&&" :: rest =>
      let (b, rest) ← conjunction text n (runs && a ≠ 0) rest
      return (truth (a ≠ 0 && b ≠ 0), rest)
    | rest => return (a, rest)

/-- The value of operations on `a`, as far as they bind more closely than a rank. -/
def operations (text : String) : Nat → Bool → Int → Nat → List Token → Part
  | 0, _, _, _, _ => fail text "expecting primary"
  | n + 1, runs, a, limit, ts =>
    match ts with
    | .op o :: rest =>
      match rank? (.op o) with
      | none => return (a, ts)
      | some r =>
        if r ≥ limit then return (a, ts)
        else do
          let (b, rest) ← primary text n runs rest
          let (b, rest) ← operations text n runs b r rest
          let a ← if runs then operate text o a b else pure b
          operations text n runs a limit rest
    | ts => return (a, ts)

/-- The value of a number, a name, a part in parentheses, or an operation on one of them. -/
def primary (text : String) : Nat → Bool → List Token → Part
  | 0, _, _ => fail text "expecting primary"
  | n + 1, runs, ts =>
    match ts with
    | .number k :: rest => return (k, rest)
    | .name name :: rest => do return (← if runs then variableValue name else pure 0, rest)
    | .op "(" :: rest => do
      let (a, rest) ← assignment text n runs rest
      match rest with
      | .op ")" :: rest => return (a, rest)
      | _ => fail text "expecting ')'"
    | .op "+" :: rest => primary text n runs rest
    | .op "-" :: rest => do
      let (a, rest) ← primary text n runs rest
      return (wrap (-a), rest)
    | .op "!" :: rest => do
      let (a, rest) ← primary text n runs rest
      return (truth (a = 0), rest)
    | .op "~" :: rest => do
      let (a, rest) ← primary text n runs rest
      return (-a - 1, rest)
    | _ => fail text "expecting primary"

end

/-- **The value of a calculation.** -/
def value (text : String) : Act Int := do
  let ts := tokens (text.length + 1) text.toList
  let (a, rest) ← assignment text (ts.length * 8 + 16) true ts
  if rest.isEmpty then return a
  fail text "expecting EOF"

end Calculation

end Stepflow.Shell
