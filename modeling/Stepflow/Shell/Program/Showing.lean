import Stepflow.Shell.Program.Basic

/-!
# Programs that show files

They write what is in the files that are named, or what they read: all of it, its beginning or its end,
in order or not, with or without numbers.
-/

namespace Stepflow.Shell.Program

open Act

/-! ### Whole files -/

/-- A number, filled up with a character to a width. -/
def padLeft (fill : Char) (width : Nat) (cs : List Char) : List Char :=
  List.replicate (width - cs.length) fill ++ cs

/-- The digits of a number. -/
def digitsOf (n : Nat) : List Char := (toString n).toList

namespace Cat

/-- What is done to lines. -/
structure Style where
  /-- Whether lines are numbered. -/
  numbers : Bool := false
  /-- Whether lines are numbered that are not empty. -/
  numbersFilled : Bool := false
  /-- Whether the ends of lines are marked. -/
  ends : Bool := false
  /-- Whether several empty lines become one. -/
  squeezes : Bool := false
  /-- Whether tabs are shown. -/
  tabs : Bool := false
  /-- Whether characters that cannot be shown are. -/
  visible : Bool := false

/-- Where in the output it stands. -/
structure Place where
  /-- The number of the last line. -/
  number : Nat := 0
  /-- Whether a line begins. -/
  fresh : Bool := true
  /-- Whether the line before was empty. -/
  afterEmpty : Bool := false

/-- A character in a form that can be shown. -/
def visibleForm (c : Char) : List Char :=
  let low (n : Nat) : List Char :=
    if n < 32 then ['^', Char.ofNat (n + 64)]
    else if n = 127 then ['^', '?']
    else [Char.ofNat n]
  if c.toNat < 128 then low c.toNat else 'M' :: '-' :: low (c.toNat - 128)

/-- A character as it is written. -/
def form (s : Style) (c : Char) : List Char :=
  if c = '\t' then if s.tabs then ['^', 'I'] else [c]
  else if c = '\n' then if s.ends then ['$', '\n'] else [c]
  else if s.visible then visibleForm c
  else [c]

/-- Writes a line that may have lost its beginning; gives what is written and the new place. -/
def line (s : Style) (p : Place) (l : List Char) : List Char × Place :=
  let isEmpty := p.fresh && l = ['\n']
  if s.squeezes && isEmpty && p.afterEmpty then ([], p)
  else
    let counts := p.fresh && (if s.numbersFilled then l ≠ ['\n'] else s.numbers)
    let number := if counts then p.number + 1 else p.number
    let start := if counts then padLeft ' ' 6 (digitsOf number) ++ ['\t'] else []
    (start ++ l.flatMap (form s),
      { number, fresh := l.getLast? = some '\n', afterEmpty := isEmpty })

/-- Writes a text; gives what is written and the new place. -/
def text (s : Style) (p : Place) (t : String) : String × Place :=
  let (parts, p) := (lines t).foldl (fun (done, p) l =>
    let (written, p) := line s p l
    (written :: done, p)) ([], p)
  (String.ofList parts.reverse.flatten, p)

/-- The options. -/
def options : Options :=
  { plain := ['A', 'b', 'e', 'E', 'n', 's', 't', 'T', 'u', 'v']
    words := [("show-all", 'A', false), ("number-nonblank", 'b', false), ("show-ends", 'E', false),
      ("number", 'n', false), ("squeeze-blank", 's', false), ("show-tabs", 'T', false),
      ("show-nonprinting", 'v', false)] }

/-- What options ask for. -/
def styleOf (a : Arguments) : Style :=
  let any (letters : List Char) : Bool := letters.any a.has
  { numbers := a.has 'n', numbersFilled := a.has 'b', squeezes := a.has 's'
    ends := any ['A', 'e', 'E'], tabs := any ['A', 't', 'T'], visible := any ['A', 'e', 't', 'v'] }

/-- Writes files one behind the other. -/
def program : Body := options.program 1 fun a => do
  if (← stream? 1).isNone then unwritable "standard output"
  let s := styleOf a
  let isPlain := !(s.numbers || s.numbersFilled || s.ends || s.squeezes || s.tabs || s.visible)
  let mut place : Place := {}
  let mut status := 0
  let mut closed := false
  for name in inputs a.operands do
    match ← contents name with
    | .ok t =>
      if isPlain then emit t
      else
        let (written, p) := text s place t
        emit written
        place := p
    | .error t =>
      complainOf name t
      closed := closed || t = .noStream
      status := 1
  if closed then complain ("closing standard input: " ++ Trouble.noStream.reason)
  return status

end Cat

/-- Writes each file for itself, changed. -/
def changing (change : String → String) (options : Options) (words : String → Trouble → String) : Body :=
  options.program 1 fun a => forEach (inputs a.operands) fun name => do
    match ← contents name with
    | .ok t =>
      emit (change t)
      return 0
    | .error t => failing (words name t)

/-- Writes the lines of files, the last one first. -/
def tac : Body :=
  changing (fun t => String.ofList (lines t).reverse.flatten)
    { plain := ['b'], valued := ['s'] }
    fun name t =>
      if t = .obstacle .isDirectory then shown name ++ ": read error: Invalid argument"
      else "failed to open " ++ quoted name ++ " for reading: " ++ t.reason

/-- Writes the lines of files, the last character of each first. -/
def rev : Body :=
  changing
    (fun t => String.ofList ((lines t).flatMap fun l => (lineText l).reverse ++ l.drop (lineText l).length))
    {}
    fun name t => "cannot open " ++ name ++ ": " ++ t.reason

namespace Numbering

/-- The options. -/
def options : Options := { plain := ['p'], valued := ['b', 'd', 'f', 'h', 'i', 'l', 'n', 's', 'v', 'w'] }

/-- A number that is an option's value. -/
def numberOr (a : Arguments) (letter : Char) (usual : Nat) : Nat :=
  ((a.value? letter).bind String.toNat?).getD usual

/-- Writes lines with their numbers. -/
def program : Body := options.program 1 fun a => do
  let width := numberOr a 'w' 6
  let separator := (a.value? 's').getD "\t"
  let step := numberOr a 'i' 1
  let layout (n : Nat) : List Char :=
    match a.value? 'n' with
    | some "ln" => digitsOf n ++ List.replicate (width - (digitsOf n).length) ' '
    | some "rz" => padLeft '0' width (digitsOf n)
    | _ => padLeft ' ' width (digitsOf n)
  let counts (l : List Char) : Bool :=
    match a.value? 'b' with
    | some "a" => true
    | some "n" => false
    | _ => !l.isEmpty
  let mut number := numberOr a 'v' 1
  let mut status := 0
  for name in inputs a.operands do
    match ← contents name with
    | .error t =>
      complainOf name t
      status := 1
    | .ok t =>
      for l in lineTexts t do
        if counts l then
          emit (String.ofList (layout number) ++ separator ++ String.ofList l ++ "\n")
          number := number + step
        else
          let blank := String.ofList (List.replicate (width + separator.length) ' ')
          emit (blank ++ String.ofList l ++ "\n")
  return status

end Numbering

/-! ### Beginnings and ends -/

namespace Part

/-- How much of a file is shown. -/
structure Amount where
  /-- How many units. -/
  count : Nat := 10
  /-- Whether units are bytes; otherwise they are lines. -/
  bytes : Bool := false
  /-- Whether the count is from the other end. -/
  other : Bool := false

/-- The factors that letters behind a number stand for. -/
def factors : List (String × Nat) :=
  [("", 1), ("b", 512), ("k", 1024), ("K", 1024), ("KiB", 1024), ("kB", 1000), ("M", 1048576),
    ("MB", 1000000)]

/-- The number that a value is. -/
def number? (s : String) : Option Nat :=
  let cs := s.toList
  let digits := cs.takeWhile Char.isDigit
  if digits.isEmpty then none
  else (factors.lookup (String.ofList (cs.drop digits.length))).map fun f =>
    digits.foldl (fun n c => n * 10 + (c.toNat - '0'.toNat)) 0 * f

/-- The first units of a text. -/
def first (a : Amount) (t : String) : String :=
  if a.bytes then
    let cs := t.toList
    String.ofList (if a.other then cs.take (cs.length - a.count) else cs.take a.count)
  else
    let ls := lines t
    String.ofList (if a.other then ls.take (ls.length - a.count) else ls.take a.count).flatten

/-- The last units of a text; from the other end, those from the one with the number on. -/
def last (a : Amount) (t : String) : String :=
  if a.bytes then
    let cs := t.toList
    String.ofList (if a.other then cs.drop (a.count - 1) else cs.drop (cs.length - a.count))
  else
    let ls := lines t
    String.ofList (if a.other then ls.drop (a.count - 1) else ls.drop (ls.length - a.count)).flatten

/-- The options. -/
def options : Options :=
  { plain := ['q', 'v', 'f', 'F', 'z', '0', '1', '2', '3', '4', '5', '6', '7', '8', '9'], valued := ['n', 'c']
    words := [("lines", 'n', true), ("bytes", 'c', true), ("quiet", 'q', false), ("silent", 'q', false),
      ("verbose", 'v', false)] }

/-- Arguments in which the first one is a number, with a letter for its unit, as the option for it. Gives
whether there is one. -/
def withNumber (arguments : List String) : List String × Bool :=
  match arguments with
  | a :: rest =>
    match a.toList with
    | '-' :: c :: cs =>
      let digits := (c :: cs).takeWhile Char.isDigit
      let unit := match (c :: cs).drop digits.length with
        | [] | ['l'] => some "-n"
        | ['c'] => some "-c"
        | _ => none
      match (if digits.isEmpty then none else unit) with
      | some option => (option :: String.ofList digits :: rest, true)
      | none => (arguments, false)
    | _ => (arguments, false)
  | [] => ([], false)

/-- The digit that was given as an option in a place where a number cannot stand. -/
def strayDigit? (a : Arguments) : Option Char := (a.options.map Prod.fst).find? Char.isDigit

/-- The amount that options ask for; `mark` is the sign for the other end. -/
def amountOf (a : Arguments) (mark : Char) : Except String Amount :=
  match a.last? ['n', 'c'] with
  | none => .ok {}
  | some letter =>
    let bytes := letter = 'c'
    let value := (a.value? letter).getD ""
    let (other, digits) := match value.toList with
      | c :: cs =>
        if c = mark then (true, String.ofList cs)
        else if c = '-' || c = '+' then (false, String.ofList cs)
        else (false, value)
      | [] => (false, value)
    match number? digits with
    | some count => .ok { count, bytes, other }
    | none => .error ("invalid number of " ++ (if bytes then "bytes" else "lines") ++ ": " ++ quoted value)

/-- The line above a file. -/
def title (isFirst : Bool) (name : String) : String :=
  (if isFirst then "" else "\n") ++ "==> " ++ (if name = "-" then "standard input" else name) ++ " <==\n"

/-- Takes from what the program reads, so that what is left can be read by others if it is a file. -/
def takeInput (part : String → String) (keeps : Bool) : Act (Except Trouble String) := do
  match ← remaining 0 with
  | .error t => return .error t
  | .ok t =>
    let taken := part t
    let isFile := match (← stream? 0).map fun s => s.2.channel with
      | some (.file _) => true
      | _ => false
    skip 0 (if isFile && keeps then taken.length else t.length)
    return .ok taken

/-- Shows parts of files. -/
def showParts (a : Arguments) (keeps : Bool) (part : String → String) : Act Nat := do
  let names := inputs a.operands
  let titles := match a.last? ['q', 'v'] with
    | some 'v' => true
    | some _ => false
    | none => names.length > 1
  let mut isFirst := true
  let mut status := 0
  for name in names do
    let found ← if name = "-" then takeInput part keeps else Except.map part <$> readPath name
    match found with
    | .ok t =>
      if titles then emit (title isFirst name)
      isFirst := false
      emit t
    | .error (.obstacle .isDirectory) =>
      if titles then emit (title isFirst name)
      isFirst := false
      complain ("error reading " ++ quoted name ++ ": " ++ Trouble.reason (.obstacle .isDirectory))
      status := 1
    | .error t =>
      complain ("cannot open " ++ quoted name ++ " for reading: " ++ t.reason)
      status := 1
  return status

/-- Shows the beginnings of files. -/
def head : Body := fun arguments => options.program 1 (fun a => do
  match strayDigit? a with
  | some d => misused 1 ("invalid trailing option -- " ++ String.singleton d)
  | none =>
    match amountOf a '-' with
    | .error message => failing message
    | .ok amount => showParts a (!amount.other) (first amount)) (withNumber arguments).1

/-- Shows the ends of files. -/
def tail : Body := fun arguments =>
  let (arguments, numbered) := withNumber arguments
  options.program 1 (fun a => do
    let stray := (strayDigit? a).orElse fun _ =>
      if numbered && a.operands.length > 1 then ((a.options.head?.bind Prod.snd).bind fun v => v.toList.head?)
      else none
    match stray with
    | some d => failing ("option used in invalid context -- " ++ String.singleton d)
    | none =>
      match amountOf a '+' with
      | .error message => failing message
      | .ok amount =>
        let status ← showParts a false (last amount)
        if a.has 'f' && status ≠ 0 then complain "no files remaining"
        return status) arguments

end Part

/-! ### Copies -/

/-- Writes what it reads, also to files. -/
def tee : Body :=
  Options.program
    { plain := ['a', 'i', 'p'], words := [("append", 'a', false), ("ignore-interrupts", 'i', false)] } 1
    fun a => do
      let access : Access := if a.has 'a' then .append else .write
      let mut files : List Nat := []
      let mut status := 0
      for name in a.operands do
        match ← openFile access name false with
        | .ok i => files := files ++ [i]
        | .error t =>
          complainOf name t
          status := 1
      match ← readAll 0 with
      | .error t =>
        complain ("read error: " ++ t.reason)
        return 1
      | .ok t =>
        emit t
        for i in files do
          if let some s := (← world).streams[i]? then writeTo i s t
        return status

end Stepflow.Shell.Program
