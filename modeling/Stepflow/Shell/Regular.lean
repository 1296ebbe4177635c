import Stepflow.Shell.Pattern

/-!
# Regular expressions

There are two ways to write them, a basic and an extended one, which differ in whether the marks stand for
themselves with or without a reverse solidus. Both are read as the same marks, and these as one
expression.

An expression is matched as far to the left as possible, and there as far as possible.
-/

namespace Stepflow.Shell

/-- A class of characters. -/
structure CharClass where
  /-- The ranges in it. -/
  ranges : List (Char × Char) := []
  /-- The names of the kinds in it. -/
  kinds : List String := []
  /-- Whether it has all other characters instead. -/
  negated : Bool := false
  deriving DecidableEq, Inhabited

namespace CharClass

/-- Whether one of the members of a class is a character. -/
def lists (s : CharClass) (c : Char) : Bool :=
  (s.ranges.any fun r => r.1 ≤ c && c ≤ r.2) || s.kinds.any fun k => Shape.isOfKind k c

/-- Whether a character is in a class; `folds` says that capitals and small letters count the same. -/
def contains (s : CharClass) (folds : Bool) (c : Char) : Bool :=
  (s.lists c || (folds && (s.lists c.toLower || s.lists c.toUpper))) != s.negated

/-- The class of one character. -/
def single (c : Char) : CharClass := { ranges := [(c, c)] }

/-- The characters of words. -/
def word : CharClass := { kinds := ["alnum"], ranges := [('_', '_')] }

/-- The blanks. -/
def space : CharClass := { kinds := ["space"] }

end CharClass

/-- A place in a text that an expression can ask for. -/
inductive Edge where
  /-- The start of the text. -/
  | start
  /-- Its end. -/
  | stop
  /-- The start of a word. -/
  | wordStart
  /-- The end of a word. -/
  | wordStop
  /-- The start or the end of a word. -/
  | word
  /-- Neither of them. -/
  | noWord
  /-- Not behind a character of a word. -/
  | clearBefore
  /-- Not in front of a character of a word. -/
  | clearBehind
  deriving DecidableEq, Inhabited

/-- A regular expression. -/
inductive Regular where
  /-- The empty text. -/
  | nothing
  /-- A character of a class. -/
  | one (s : CharClass)
  /-- Any character. -/
  | any
  /-- A place. -/
  | edge (e : Edge)
  /-- An expression and another one behind it. -/
  | both (a b : Regular)
  /-- An expression or another one. -/
  | either (a b : Regular)
  /-- An expression several times. -/
  | times (a : Regular) (least : Nat) (most : Option Nat)
  /-- An expression that is remembered under a number. -/
  | group (number : Nat) (a : Regular)
  /-- The text that was remembered under a number. -/
  | again (number : Nat)
  deriving Inhabited

namespace Regular

/-! ### Matching -/

/-- What was remembered: the number of the group, its start and its end. -/
abbrev Groups := List (Nat × Nat × Nat)

/-- A match that was found: its end, and what was remembered. -/
structure Found where
  /-- The end. -/
  stop : Nat
  /-- What was remembered. -/
  groups : Groups := []

/-- A text in which is searched. -/
structure Subject where
  /-- Its characters. -/
  text : Array Char
  /-- Whether capitals and small letters count the same. -/
  folds : Bool := false
  /-- Whether the longest match is looked for, or any. -/
  longest : Bool := true

namespace Subject

/-- The character in front of a place. -/
def before (s : Subject) (i : Nat) : Option Char := if i = 0 then none else s.text[i - 1]?

/-- Whether there is a character of a word. -/
def isWord (c : Option Char) : Bool := (c.map (CharClass.word.contains false)).getD false

/-- Whether a place is as an expression asks. -/
def isAt (s : Subject) (i : Nat) (e : Edge) : Bool :=
  let left := isWord (s.before i)
  let right := isWord s.text[i]?
  match e with
  | .start => i = 0
  | .stop => i = s.text.size
  | .wordStart => !left && right
  | .wordStop => left && !right
  | .word => left != right
  | .noWord => left == right
  | .clearBefore => !left
  | .clearBehind => !right

/-- Whether two characters count as the same. -/
def same (s : Subject) (a b : Char) : Bool := a = b || (s.folds && a.toLower = b.toLower)

/-- The better one of two ways to go on: the first, unless the second gets further. -/
def better (s : Subject) (first : Option Found) (second : Unit → Option Found) : Option Found :=
  match first with
  | none => second ()
  | some f =>
    if !s.longest || f.stop = s.text.size then some f
    else match second () with
      | some g => if f.stop < g.stop then some g else some f
      | none => some f

/-- How to go on behind a part of an expression. -/
abbrev Next := Nat → Groups → Option Found

/-- Matches a step several times. The first number bounds how often. -/
def repeatedly (s : Subject) (step : Nat → Groups → Next → Option Found) (next : Next) :
    Nat → (least : Nat) → (most : Option Nat) → Next
  | 0, _, _ => next
  | n + 1, least, most => fun i gs =>
    let again : Next := repeatedly s step next n (least - 1) (most.map (· - 1))
    if most = some 0 then next i gs
    else if least > 0 then step i gs again
    else s.better (step i gs fun j gs => if j = i then none else again j gs) fun _ => next i gs

/-- Matches an expression at a place, and goes on behind it. -/
def run (s : Subject) : Regular → Nat → Groups → Next → Option Found
  | .nothing, i, gs, next => next i gs
  | .one c, i, gs, next =>
    match s.text[i]? with
    | some d => if c.contains s.folds d then next (i + 1) gs else none
    | none => none
  | .any, i, gs, next => if i < s.text.size then next (i + 1) gs else none
  | .edge e, i, gs, next => if s.isAt i e then next i gs else none
  | .both a b, i, gs, next => run s a i gs fun j gs => run s b j gs next
  | .either a b, i, gs, next => s.better (run s a i gs next) fun _ => run s b i gs next
  | .times a least most, i, gs, next =>
    repeatedly s (run s a) next (s.text.size + least + 1) least most i gs
  | .group n a, i, gs, next => run s a i gs fun j gs => next j ((n, i, j) :: gs.filter fun g => g.1 ≠ n)
  | .again n, i, gs, next =>
    match gs.lookup n with
    | none => none
    | some (start, stop) =>
      let length := stop - start
      let fits := (List.range length).all fun k =>
        match s.text[start + k]?, s.text[i + k]? with
        | some a, some b => s.same a b
        | _, _ => false
      if fits then next (i + length) gs else none

/-- The first match from a place on, with its start. The first number bounds the places. -/
def searchFrom (s : Subject) (r : Regular) : Nat → Nat → Option (Nat × Found)
  | 0, _ => none
  | n + 1, i =>
    match run s r i [] fun j groups => some { stop := j, groups } with
    | some f => some (i, f)
    | none => searchFrom s r n (i + 1)

/-- The first match from a place on, with its start. -/
def search (s : Subject) (r : Regular) (start : Nat) : Option (Nat × Found) :=
  s.searchFrom r (s.text.size + 1 - start) start

end Subject

/-! ### Reading -/

/-- What is wrong with an expression. -/
inductive Flaw where
  /-- A class has no end. -/
  | openClass
  /-- A class has no members. -/
  | malformed
  /-- A group has no end. -/
  | openGroup
  /-- A group has no start. -/
  | closedGroup
  /-- A number of times has no end. -/
  | openCount
  /-- A number of times is none. -/
  | count
  /-- A number of times is too great. -/
  | size
  /-- There is no group with a number. -/
  | reference
  /-- A reverse solidus is the last character. -/
  | trailing
  /-- A range has its ends the wrong way around. -/
  | range
  /-- There is no such kind of characters. -/
  | kind
  deriving DecidableEq

/-- The wording of a flaw. -/
def Flaw.message : Flaw → String
  | .openClass => "Unmatched [, [^, [:, [., or [="
  | .malformed => "Invalid regular expression"
  | .openGroup => "Unmatched ( or \\("
  | .closedGroup => "Unmatched ) or \\)"
  | .openCount => "Unmatched \\\x7b"
  | .count => "Invalid content of \\\x7b\\\x7d"
  | .size => "Regular expression too big"
  | .reference => "Invalid back reference"
  | .trailing => "Trailing backslash"
  | .range => "Invalid range end"
  | .kind => "Invalid character class name"

/-- A mark in an expression. -/
inductive Mark where
  /-- What matches by itself. -/
  | atom (r : Regular)
  /-- The start of a group. -/
  | opening
  /-- The end of a group. -/
  | closing
  /-- What stands between choices. -/
  | bar
  /-- A number of times for what stands in front. -/
  | count (least : Nat) (most : Option Nat)

/-- How expressions are written. -/
structure Manner where
  /-- Whether they are extended ones. -/
  extended : Bool := false
  /-- Whether letters behind a reverse solidus stand for characters that cannot be shown. -/
  escapes : Bool := false
  /-- Whether a group may end that has not begun; then the mark stands for itself. -/
  looseEnds : Bool := false

/-- The greatest number of times. -/
def greatestCount : Nat := 32767

/-- Takes a number. -/
def takeNumber (cs : List Char) : Option Nat × List Char :=
  let digits := cs.takeWhile Char.isDigit
  (if digits.isEmpty then none else some (digits.foldl (fun n c => n * 10 + (c.toNat - '0'.toNat)) 0),
    cs.drop digits.length)

/-- Takes a number of times, behind its start. -/
def takeCount (m : Manner) (cs : List Char) : Except Flaw (Mark × List Char) :=
  let (least, rest) := takeNumber cs
  let (most, rest) := match rest with
    | ',' :: more =>
      let (n, rest) := takeNumber more
      (some n, rest)
    | _ => (none, rest)
  let stop := if m.extended then ['\x7d'] else ['\\', '\x7d']
  if rest.isEmpty then .error .openCount
  else if !stop.isPrefixOf rest || (least.isNone && most.isNone) then .error .count
  else
    let low := least.getD 0
    let high := most.getD (some low)
    if high.any (· < low) then .error .count
    else if low > greatestCount || high.any (· > greatestCount) then .error .size
    else .ok (.count low high, rest.drop stop.length)

/-- Takes the name of a kind of characters, or of one character, in a class: behind its first mark. -/
def takeNamed (mark : Char) : List Char → Option (List Char × List Char)
  | [] => none
  | c :: rest =>
    match rest with
    | ']' :: more => if c = mark then some ([], more) else (takeNamed mark rest).map fun (n, r) => (c :: n, r)
    | _ => (takeNamed mark rest).map fun (n, r) => (c :: n, r)

/-- The characters that cannot be shown, by the letters that stand for them. -/
def escapedChars : List (Char × Char) :=
  [('n', '\n'), ('t', '\t'), ('f', '\x0c'), ('v', '\x0b'), ('a', '\x07'), ('r', '\r')]

/-- Takes one end of a range. -/
def takeEnd (m : Manner) : List Char → Option (Char × List Char)
  | '[' :: mark :: rest =>
    if mark = '.' || mark = '=' then
      match takeNamed mark rest with
      | some ([c], rest) => some (c, rest)
      | _ => none
    else some ('[', mark :: rest)
  | '\\' :: c :: rest =>
    match (if m.escapes then escapedChars.lookup c else none) with
    | some e => some (e, rest)
    | none => some ('\\', c :: rest)
  | c :: rest => some (c, rest)
  | [] => none

/-- Takes the members of a class. -/
def takeMembers (m : Manner) : Nat → (first : Bool) → CharClass → List Char →
    Except Flaw (CharClass × List Char)
  | 0, _, _, _ => .error .openClass
  | n + 1, first, s, cs =>
    match cs with
    | [] => .error .openClass
    | '[' :: ':' :: rest =>
      match takeNamed ':' rest with
      | none => .error .openClass
      | some (name, rest) =>
        let name := String.ofList name
        if Shape.kinds.contains name then
          takeMembers m n false { s with kinds := s.kinds ++ [name] } rest
        else .error .kind
    | c :: rest =>
      if c = ']' && !first then .ok (s, rest)
      else match takeEnd m (c :: rest) with
        | none => .error .openClass
        | some (low, rest) =>
          match rest with
          | '-' :: d :: more =>
            if d = ']' then takeMembers m n false { s with ranges := s.ranges ++ [(low, low)] } rest
            else match takeEnd m (d :: more) with
              | none => .error .openClass
              | some (high, rest) =>
                if high < low then .error .range
                else takeMembers m n false { s with ranges := s.ranges ++ [(low, high)] } rest
          | _ => takeMembers m n false { s with ranges := s.ranges ++ [(low, low)] } rest

/-- Takes a class, behind its start. -/
def takeClass (m : Manner) (cs : List Char) : Except Flaw (CharClass × List Char) :=
  match cs with
  | [] => .error .malformed
  | '^' :: rest =>
    (takeMembers m (cs.length + 1) true {} rest).map fun (s, r) => ({ s with negated := true }, r)
  | _ => takeMembers m (cs.length + 1) true {} cs

/-- The marks with letters that both ways to write have. -/
def lettered (m : Manner) (c : Char) : Option Regular :=
  match c with
  | 'w' => some (.one .word)
  | 'W' => some (.one { CharClass.word with negated := true })
  | 's' => some (.one .space)
  | 'S' => some (.one { CharClass.space with negated := true })
  | '<' => some (.edge .wordStart)
  | '>' => some (.edge .wordStop)
  | 'b' => some (.edge .word)
  | 'B' => some (.edge .noWord)
  | '`' => some (.edge .start)
  | '\'' => some (.edge .stop)
  | _ =>
    if c.isDigit && c ≠ '0' then some (.again (c.toNat - '0'.toNat))
    else (if m.escapes then escapedChars.lookup c else none).map fun e => .one (.single e)

/-- Whether a basic expression or a choice in it ends here. -/
def endsBasic (cs : List Char) : Bool :=
  cs.isEmpty || ['\\', ')'].isPrefixOf cs || ['\\', '|'].isPrefixOf cs

/-- The marks of a basic expression; `first` says that nothing stands in front that could be repeated. -/
def basicMarks (m : Manner) : Nat → (first : Bool) → List Char → Except Flaw (List Mark)
  | 0, _, _ => .ok []
  | n + 1, first, cs =>
    let literal (c : Char) (rest : List Char) : Except Flaw (List Mark) :=
      (basicMarks m n false rest).map fun ms => .atom (.one (.single c)) :: ms
    match cs with
    | [] => .ok []
    | '\\' :: [] => .error .trailing
    | '\\' :: c :: rest =>
      if c = '(' then (basicMarks m n true rest).map (.opening :: ·)
      else if c = ')' then (basicMarks m n false rest).map (.closing :: ·)
      else if c = '|' then (basicMarks m n true rest).map (.bar :: ·)
      else if c = '\x7b' && !first then do
        let (mark, rest) ← takeCount m rest
        return mark :: (← basicMarks m n false rest)
      else if c = '+' && !first then (basicMarks m n false rest).map (.count 1 none :: ·)
      else if c = '?' && !first then (basicMarks m n false rest).map (.count 0 (some 1) :: ·)
      else match lettered m c with
        | some r => (basicMarks m n false rest).map (.atom r :: ·)
        | none => literal c rest
    | '[' :: rest => do
      let (s, rest) ← takeClass m rest
      return .atom (.one s) :: (← basicMarks m n false rest)
    | '.' :: rest => (basicMarks m n false rest).map (.atom .any :: ·)
    | '*' :: rest =>
      if first then literal '*' rest else (basicMarks m n false rest).map (.count 0 none :: ·)
    | '^' :: rest =>
      if first then (basicMarks m n true rest).map (.atom (.edge .start) :: ·) else literal '^' rest
    | '$' :: rest =>
      if endsBasic rest then (basicMarks m n false rest).map (.atom (.edge .stop) :: ·)
      else literal '$' rest
    | c :: rest => literal c rest

/-- The marks of an extended expression; `depth` is the number of groups around. -/
def extendedMarks (m : Manner) : Nat → (depth : Nat) → List Char → Except Flaw (List Mark)
  | 0, _, _ => .ok []
  | n + 1, depth, cs =>
    let literal (c : Char) (rest : List Char) : Except Flaw (List Mark) :=
      (extendedMarks m n depth rest).map fun ms => .atom (.one (.single c)) :: ms
    let mark (x : Mark) (rest : List Char) : Except Flaw (List Mark) :=
      (extendedMarks m n depth rest).map (x :: ·)
    match cs with
    | [] => .ok []
    | '\\' :: [] => .error .trailing
    | '\\' :: c :: rest =>
      match lettered m c with
      | some r => mark (.atom r) rest
      | none => literal c rest
    | '[' :: rest => do
      let (s, rest) ← takeClass m rest
      return .atom (.one s) :: (← extendedMarks m n depth rest)
    | '.' :: rest => mark (.atom .any) rest
    | '*' :: rest => mark (.count 0 none) rest
    | '+' :: rest => mark (.count 1 none) rest
    | '?' :: rest => mark (.count 0 (some 1)) rest
    | '\x7b' :: rest =>
      match takeCount m rest with
      | .ok (x, rest) => mark x rest
      | .error .openCount => literal '\x7b' rest
      | .error e => if (rest.head?.map Char.isDigit).getD false then .error e else literal '\x7b' rest
    | '^' :: rest => mark (.atom (.edge .start)) rest
    | '$' :: rest => mark (.atom (.edge .stop)) rest
    | '|' :: rest => mark .bar rest
    | '(' :: rest => (extendedMarks m n (depth + 1) rest).map (.opening :: ·)
    | ')' :: rest =>
      if depth = 0 && m.looseEnds then literal ')' rest
      else (extendedMarks m n (depth - 1) rest).map (.closing :: ·)
    | c :: rest => literal c rest

/-- What is read of a group, or of the whole: the choices that are done, what the present one has so far,
and its last part, which may be repeated. -/
structure Level where
  /-- The number of the group. -/
  number : Nat := 0
  /-- The choices that are done. -/
  choices : Option Regular := none
  /-- What the present choice has so far. -/
  sequence : Option Regular := none
  /-- Its last part. -/
  last : Option Regular := none

namespace Level

/-- The last part joined to what the present choice has so far. -/
def joined (l : Level) : Option Regular :=
  match l.sequence, l.last with
  | some a, some b => some (.both a b)
  | none, b => b
  | a, none => a

/-- Adds a part. -/
def add (l : Level) (r : Regular) : Level := { l with sequence := l.joined, last := some r }

/-- Ends the present choice. -/
def choose (l : Level) : Level :=
  let present := l.joined.getD .nothing
  { l with
    choices := some (match l.choices with
      | some a => .either a present
      | none => present)
    sequence := none
    last := none }

/-- The expression of the level. -/
def whole (l : Level) : Regular := (l.choose.choices).getD .nothing

end Level

/-- Puts marks together: `opened` is the number of groups that have begun, `closed` are those that have
ended. -/
def build : (opened : Nat) → (closed : List Nat) → Level → List Level → List Mark → Except Flaw Regular
  | _, _, l, [], [] => .ok l.whole
  | _, _, _, _ :: _, [] => .error .openGroup
  | opened, closed, l, outer, m :: rest =>
    match m with
    | .atom (.again n) =>
      if closed.contains n then build opened closed (l.add (.again n)) outer rest else .error .reference
    | .atom r => build opened closed (l.add r) outer rest
    | .opening => build (opened + 1) closed { number := opened + 1 } (l :: outer) rest
    | .closing =>
      match outer with
      | [] => .error .closedGroup
      | o :: outer =>
        build opened (l.number :: closed) (o.add (.group l.number l.whole)) outer rest
    | .bar => build opened closed l.choose outer rest
    | .count least most =>
      match l.last with
      | none => build opened closed l outer rest
      | some r => build opened closed { l with last := some (.times r least most) } outer rest

/-- **The expression** that a text is. -/
def read (m : Manner) (cs : List Char) : Except Flaw Regular := do
  let marks ←
    if m.extended then extendedMarks m (cs.length + 1) 0 cs else basicMarks m (cs.length + 1) true cs
  build 0 [] {} [] marks

/-- The expression of a text that stands for itself. -/
def ofText (cs : List Char) : Regular :=
  cs.foldr (fun c r => .both (.one (.single c)) r) .nothing

end Regular

end Stepflow.Shell
