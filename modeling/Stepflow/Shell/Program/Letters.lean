import Stepflow.Shell.Pattern
import Stepflow.Shell.Program.Showing

/-!
# Exchanging characters

Two lists of characters are given. Each character of the first list is replaced by the one at its place in
the second; or the characters of the first are deleted. Runs of a character may then become one.
-/

namespace Stepflow.Shell.Program.Letters

open Act

/-- A part of a list of characters. -/
inductive Part where
  /-- Characters. -/
  | chars (cs : List Char)
  /-- All characters of a kind. -/
  | kind (name : String)
  /-- A character so many times; nothing is as often as there is room. -/
  | fill (c : Char) (times : Option Nat)

/-- A character, which may be given by an escape. Gives whether it was. -/
def takeChar : List Char → Option (Char × Bool × List Char)
  | [] => none
  | '\\' :: c :: rest =>
    let isOctal (d : Char) : Bool := '0' ≤ d && d ≤ '7'
    if isOctal c then
      let digits := ((c :: rest).take 3).takeWhile isOctal
      let value := digits.foldl (fun n d => n * 8 + (d.toNat - '0'.toNat)) 0
      some (Char.ofNat (value % 256), true, (c :: rest).drop digits.length)
    else
      let named := [('a', '\x07'), ('b', '\x08'), ('f', '\x0c'), ('n', '\n'), ('r', '\r'), ('t', '\t'),
        ('v', '\x0b')]
      some ((named.lookup c).getD c, true, rest)
  | c :: rest => some (c, false, rest)

/-- The characters from one to another. -/
def range (low high : Char) : List Char :=
  (List.range (high.toNat + 1 - low.toNat)).map fun k => Char.ofNat (low.toNat + k)

/-- Takes a name between marks: that of a kind of characters. -/
def takeKind (cs : List Char) : Option (String × List Char) :=
  let name := cs.takeWhile (· ≠ ':')
  match cs.drop name.length with
  | ':' :: ']' :: rest => some (String.ofList name, rest)
  | _ => none

/-- Takes a repeated character, behind the bracket. -/
def takeFill (cs : List Char) : Option (Char × Option Nat × List Char) := do
  let (c, _, rest) ← takeChar cs
  match rest with
  | '*' :: more =>
    let digits := more.takeWhile Char.isDigit
    match more.drop digits.length with
    | ']' :: rest =>
      let base := if digits.head? = some '0' then 8 else 10
      let n := digits.foldl (fun n d => n * base + (d.toNat - '0'.toNat)) 0
      return (c, if n = 0 then none else some n, rest)
    | _ => none
  | _ => none

/-- How a character is shown in complaints. -/
def shownChar (c : Char) : String :=
  if c = '\\' then "\\\\" else if isVisible c then String.singleton c
  else String.ofList ('\\' :: escapeMark c)

/-- The parts of a list of characters. The first number bounds them. -/
def parts : Nat → List Char → Except String (List Part)
  | 0, _ => .ok []
  | n + 1, cs =>
    match cs with
    | [] => .ok []
    | '[' :: ':' :: rest =>
      match takeKind rest with
      | some (name, rest) =>
        if Shape.kinds.contains name then (parts n rest).map (.kind name :: ·)
        else .error ("invalid character class " ++ quoted name)
      | none => (parts n (':' :: rest)).map (.chars ['['] :: ·)
    | '[' :: '=' :: c :: '=' :: ']' :: rest => (parts n rest).map (.chars [c] :: ·)
    | _ =>
      match (match cs with
        | '[' :: rest => takeFill rest
        | _ => none) with
      | some (c, times, rest) => (parts n rest).map (.fill c times :: ·)
      | none =>
        match takeChar cs with
        | none => .ok []
        | some (c, _, '-' :: d :: rest) =>
          match takeChar (d :: rest) with
          | some (e, _, rest) =>
            if e < c then
              .error ("range-endpoints of '" ++ shownChar c ++ "-" ++ shownChar e ++
                "' are in reverse collating sequence order")
            else (parts n rest).map (.chars (range c e) :: ·)
          | none => .ok []
        | some (c, _, rest) => (parts n rest).map (.chars [c] :: ·)

/-- All characters, in their order. -/
def all : List Char := (List.range 256).map Char.ofNat

/-- The characters of a part. -/
def Part.list : Part → List Char
  | .chars cs => cs
  | .kind name => all.filter (Shape.isOfKind name)
  | .fill c times => List.replicate (times.getD 0) c

/-- The characters of a list, as many as there is room for if one fills it. -/
def list (room : Nat) (ps : List Part) : List Char :=
  let fixed := ps.foldl (fun n p => n + p.list.length) 0
  ps.flatMap fun
    | .fill c none => List.replicate (room - fixed) c
    | p => p.list

/-- Makes runs of a character one, if it is such a character. -/
def squeeze (isMeant : Char → Bool) : List Char → List Char
  | a :: b :: rest =>
    if a = b && isMeant a then squeeze isMeant (b :: rest) else a :: squeeze isMeant (b :: rest)
  | cs => cs

/-- The options. -/
def options : Options :=
  { plain := ['c', 'C', 'd', 's', 't'], leading := true
    words := [("complement", 'c', false), ("delete", 'd', false), ("squeeze-repeats", 's', false),
      ("truncate-set1", 't', false)] }

/-- The first list: the characters that are not in it, if that was asked for. -/
def firstList (a : Arguments) (ps : List Part) : List Char :=
  let cs := list 0 ps
  if a.has 'c' || a.has 'C' then all.filter fun c => !cs.contains c else cs

/-- The characters that stand for others. -/
def pairs (a : Arguments) (old new : List Char) : List (Char × Char) :=
  let filled := match new.getLast? with
    | some c => if a.has 't' then new else new ++ List.replicate (old.length - new.length) c
    | none => []
  (old.zip filled).reverse

/-- Changes a text. -/
def changed (a : Arguments) (first : List Char) (second : Option (List Char)) (cs : List Char) : List Char :=
  if a.has 'd' then
    let kept := cs.filter fun c => !first.contains c
    if a.has 's' then squeeze (second.getD []).contains kept else kept
  else match second with
    | none => squeeze first.contains cs
    | some new =>
      let table := pairs a first new
      let replaced := cs.map fun c => (table.lookup c).getD c
      if a.has 's' then squeeze new.contains replaced else replaced

/-- What is wrong with the number of lists. -/
def misuse? (a : Arguments) : Option (String × Option String) :=
  let deletes := a.has 'd'
  let squeezes := a.has 's'
  match a.operands with
  | [] => some ("missing operand", none)
  | [x] =>
    if deletes && squeezes then
      some ("missing operand after " ++ quoted x,
        some "Two strings must be given when both deleting and squeezing repeats.")
    else if deletes || squeezes then none
    else some ("missing operand after " ++ quoted x, some "Two strings must be given when translating.")
  | [_, y] =>
    if deletes && !squeezes then
      some ("extra operand " ++ quoted y,
        some "Only one string may be given when deleting without squeezing repeats.")
    else none
  | _ :: _ :: z :: _ => some ("extra operand " ++ quoted z, none)

/-- Exchanges characters. -/
def program : Body := options.program 1 fun a => do
  match misuse? a with
  | some (message, more) =>
    complain message
    if let some line := more then putError (line ++ "\n")
    hint
    return 1
  | none =>
    let lists := a.operands.mapM fun s => parts s.length s.toList
    match lists with
    | .error message => failing message
    | .ok ps =>
      let fills := (ps.headD []).any fun
        | .fill _ _ => true
        | _ => false
      if fills then return ← failing "the [c*] repeat construct may not appear in string1"
      let first := firstList a (ps.headD [])
      let second := ps[1]?.map (list first.length)
      if second = some [] && !a.has 'd' then
        failing "when not truncating set1, string2 must be non-empty"
      else match ← readAll 0 with
        | .error t => failing ("read error: " ++ t.reason)
        | .ok t =>
          emit (String.ofList (changed a first second t.toList))
          return 0

end Stepflow.Shell.Program.Letters
