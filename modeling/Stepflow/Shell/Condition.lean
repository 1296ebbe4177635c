import Stepflow.Shell.Calculation
import Stepflow.Shell.Vocabulary

/-!
# Conditions

A condition is made of comparisons and of questions about files, which may be joined and denied. Its
words say by their places what they are: a mark counts as a word like any other where only that makes
sense.
-/

namespace Stepflow.Shell.Condition

/-- What a word of a condition is. -/
inductive Mark where
  /-- A word. -/
  | word
  /-- The end. -/
  | ending
  /-- A question about a word. -/
  | question (op : String)
  /-- A comparison of two words. -/
  | comparison (op : String)
  /-- Joins conditions that must both hold. -/
  | both
  /-- Joins conditions of which one must hold. -/
  | either
  /-- Denies a condition. -/
  | denial
  /-- Opens a part. -/
  | opening
  /-- Closes a part. -/
  | closing
  deriving DecidableEq

/-- The questions. -/
def questions : List String :=
  ["-r", "-w", "-x", "-e", "-f", "-d", "-c", "-b", "-p", "-u", "-g", "-k", "-s", "-t", "-z", "-n", "-h", "-O",
    "-G", "-L", "-S"]

/-- The comparisons. -/
def comparisons : List String :=
  ["-nt", "-ot", "-ef", "=", "!=", "<", ">", "-eq", "-ne", "-ge", "-gt", "-le", "-lt"]

/-- The mark that a word may be. -/
def markOf (w : String) : Mark :=
  if questions.contains w then .question w
  else if comparisons.contains w then .comparison w
  else match w with
    | "-a" => .both
    | "-o" => .either
    | "!" => .denial
    | "(" => .opening
    | ")" => .closing
    | _ => .word

/-- Whether a word is a comparison. -/
def isComparison (w : String) : Bool := comparisons.contains w

/-- What the first of some words is. -/
def first : List String → Mark
  | [] => .ending
  | w :: rest =>
    match markOf w, rest with
    | .question _, [] => .word
    | .question op, [_] => .question op
    | .question op, next :: _ => if isComparison next then .word else .question op
    | .opening, [] => .word
    | m, _ => m

/-- Complains about a condition. -/
def fail {α : Type} (op : String) (message : String) : Act α :=
  Act.raise (if op = "" then message else op ++ ": " ++ message)

/-- The number that a word is. -/
def number (w : String) : Act Int := do
  match Calculation.signed? true w.toList with
  | some (n, rest) =>
    if rest.all Calculation.isBlank then return n
    Act.raise ("Illegal number: " ++ w)
  | none => Act.raise ("Illegal number: " ++ w)

/-- The names of things that are no files in the directory of devices. -/
def devices : List String := ["null", "zero", "full", "random", "urandom", "tty"]

/-- Whether a place is that of a device. -/
def isDevice (place : List String) : Bool :=
  match place with
  | ["dev", name] => devices.contains name
  | _ => false

/-- Whether a question about a file has the answer yes. -/
def askFile (op path : String) : Act Bool := do
  let place ← Act.placeOf path
  let device := isDevice place && path ≠ ""
  match ← Act.find path with
  | .error _ =>
    let isProgram := (programAt? place).isSome && path ≠ ""
    return (device && ["-e", "-c", "-r", "-w", "-O", "-G"].contains op) ||
      (isProgram && ["-e", "-f", "-r", "-w", "-x", "-s", "-O", "-G"].contains op)
  | .ok (.dir _) => return ["-e", "-d", "-r", "-w", "-x", "-s", "-O", "-G"].contains op
  | .ok (.file c) =>
    match op with
    | "-e" | "-r" | "-w" | "-O" | "-G" => return true
    | "-f" => return !device
    | "-c" => return device
    | "-s" => return !c.bytes.isEmpty
    | _ => return false

/-- Whether a question has the answer yes. -/
def ask (op w : String) : Act Bool := do
  match op with
  | "-z" => return w = ""
  | "-n" => return w ≠ ""
  | "-t" =>
    let _ ← number w
    return false
  | _ => askFile op w

/-- Whether a comparison holds. -/
def compare (op a b : String) : Act Bool := do
  match op with
  | "=" => return a = b
  | "!=" => return a ≠ b
  | "<" => return a < b
  | ">" => return b < a
  | "-ef" => return (← Act.find a).toOption.isSome && (← Act.placeOf a) = (← Act.placeOf b)
  | "-nt" => return (← Act.find a).toOption.isSome && (← Act.find b).toOption.isNone
  | "-ot" => return (← Act.find a).toOption.isNone && (← Act.find b).toOption.isSome
  | _ =>
    let x ← number a
    let y ← number b
    return match op with
      | "-eq" => x = y
      | "-ne" => x ≠ y
      | "-ge" => x ≥ y
      | "-gt" => x > y
      | "-le" => x ≤ y
      | _ => x < y

/-- Whether a part of a condition holds, and the words from its last one on. -/
abbrev Part := Act (Bool × List String)

mutual

/-- Whether one of some conditions holds. `m` is what the first word is. -/
def oneOf : Nat → Mark → List String → Part
  | 0, _, ws => return (false, ws)
  | n + 1, m, ws => do
    let (a, ws) ← allOf n m ws
    if first ws.tail = .either then
      let ws := ws.drop 2
      let (b, ws) ← oneOf n (first ws) ws
      return (a || b, ws)
    return (a, ws)

/-- Whether all of some conditions hold. -/
def allOf : Nat → Mark → List String → Part
  | 0, _, ws => return (false, ws)
  | n + 1, m, ws => do
    let (a, ws) ← denied n m ws
    if first ws.tail = .both then
      let ws := ws.drop 2
      let (b, ws) ← allOf n (first ws) ws
      return (a && b, ws)
    return (a, ws)

/-- Whether a condition holds that may be denied. -/
def denied : Nat → Mark → List String → Part
  | 0, _, ws => return (false, ws)
  | n + 1, m, ws => do
    if m ≠ .denial then simple n m ws
    else
      let next := first ws.tail
      let (a, ws) ← denied n next (if next = .ending then ws else ws.tail)
      return (!a, ws)

/-- Whether a condition holds that is not joined to others. -/
def simple : Nat → Mark → List String → Part
  | 0, _, ws => return (false, ws)
  | n + 1, m, ws => do
    match m with
    | .ending => return (false, ws)
    | .opening =>
      let ws := ws.tail
      let next := first ws
      if next = .closing then return (false, ws)
      let (a, ws) ← oneOf n next ws
      let ws := ws.tail
      if first ws ≠ .closing then fail "" "closing paren expected"
      return (a, ws)
    | .question op =>
      match ws.tail with
      | [] => fail op "argument expected"
      | w :: rest => return (← ask op w, w :: rest)
    | _ =>
      match first ws.tail, ws with
      | .comparison op, a :: _ :: b :: rest => return (← compare op a b, b :: rest)
      | .comparison op, _ => fail op "argument expected"
      | _, w :: _ => return (w ≠ "", ws)
      | _, [] => return (false, ws)

end

/-- Whether words hold of which the first is what `m` says. -/
def evaluate (m : Mark) (ws : List String) : Act Bool := do
  let (a, ws) ← oneOf (ws.length * 6 + 6) m ws
  match ws with
  | w :: _ :: _ => fail w "unexpected operator"
  | _ => return a

/-- The words between parentheses that stand around all. -/
def parenthesised? (ws : List String) : Option (List String) :=
  match ws with
  | "(" :: rest => if rest.getLast? = some ")" then some rest.dropLast else none
  | _ => none

/-- Whether words are a condition that holds. Three or four words are read as one comparison, as a part
in parentheses or as a denial, if they can be. -/
def holds : List String → Act Bool
  | [] => return false
  | w :: rest => do
    let ws := w :: rest
    let isOne := rest.length = 2 && (rest.head?.map isComparison).getD false
    if isOne then evaluate .word ws
    else if rest.length = 2 || rest.length = 3 then
      match parenthesised? ws with
      | some inner => evaluate (first inner) inner
      | none => if w = "!" then return !(← holds rest) else evaluate (first ws) ws
    else evaluate (first ws) ws

end Stepflow.Shell.Condition
