import Stepflow.Shell.Program.Showing

/-!
# Counting and sorting

Programs that count what is in files, and that put lines in order.
-/

/-!
## Counting what is in files

Lines, words, characters, bytes, and the width of the widest line. The numbers stand in columns, which
are as wide as the number of bytes in all files, if that is known before they are read.
-/

namespace Stepflow.Shell.Program.Count

open Act

/-- What was counted in a text. -/
structure Counts where
  /-- The number of ends of lines. -/
  lines : Nat := 0
  /-- The number of words. -/
  words : Nat := 0
  /-- The number of bytes. -/
  bytes : Nat := 0
  /-- The width of the widest line. -/
  width : Nat := 0

/-- Whether a character divides words. -/
def isSpace (c : Char) : Bool := c = ' ' || ('\t' ≤ c && c ≤ '\r')

/-- The number of words: of places where one begins. -/
def wordCount : (inside : Bool) → List Char → Nat
  | _, [] => 0
  | inside, c :: rest =>
    if isSpace c then wordCount false rest
    else (if inside then 0 else 1) + wordCount true rest

/-- The width of a line: tabs go to every eighth column. -/
def lineWidth (l : List Char) : Nat :=
  l.foldl (fun n c =>
    if c = '\t' then (n / 8 + 1) * 8 else if c = '\r' || c = '\x0c' then 0
    else if isVisible c then n + 1 else n) 0

/-- Counts what is in a text. -/
def ofText (t : String) : Counts :=
  let cs := t.toList
  { lines := cs.count '\n', words := wordCount false cs, bytes := cs.length
    width := ((lineTexts t).map lineWidth).foldl max 0 }

/-- The counts of two texts together. -/
def Counts.plus (a b : Counts) : Counts :=
  { lines := a.lines + b.lines, words := a.words + b.words, bytes := a.bytes + b.bytes
    width := max a.width b.width }

/-- The options. -/
def options : Options :=
  { plain := ['c', 'l', 'L', 'm', 'w']
    words := [("bytes", 'c', false), ("chars", 'm', false), ("lines", 'l', false), ("words", 'w', false),
      ("max-line-length", 'L', false)] }

/-- The numbers that are shown. -/
def columns (a : Arguments) (c : Counts) : List Nat :=
  let all := a.options.isEmpty
  (if all || a.has 'l' then [c.lines] else []) ++ (if all || a.has 'w' then [c.words] else []) ++
    (if a.has 'm' then [c.bytes] else []) ++ (if all || a.has 'c' then [c.bytes] else []) ++
    (if a.has 'L' then [c.width] else [])

/-- The least width of columns if something is counted whose size is not known. -/
def unknownWidth : Nat := 7

/-- The number of bytes in an input, if that is known before it is read; nothing for what is missing. -/
def sizeOf (name : String) : Act (Option (Option Nat)) := do
  if name = "-" then
    match (← stream? 0).map fun (s : Nat × Stream) => s.2.channel with
    | some (.file place) => return some (some (← sizeAt place))
    | none => return none
    | _ => return some none
  else if (← placeOf name) = nullPlace then return some none
  else match ← find name with
    | .ok (.file c) => return some (some c.bytes.length)
    | .ok _ => return some none
    | .error _ => return none

/-- The width of the columns. -/
def columnWidth (names : List String) (shown : Nat) : Act Nat := do
  if names.length = 1 && shown = 1 then return 1
  let sizes ← names.mapM sizeOf
  let known := (sizes.filterMap fun s => s.join).foldl (· + ·) 0
  let least := if sizes.contains (some none) then unknownWidth else 1
  return max least (digitsOf known).length

/-- Counts what is in files. -/
def program : Body := options.program 1 fun a => do
  let names := inputs a.operands
  let width ← columnWidth names (columns a {}).length
  let tell (c : Counts) (name : String) : Act Unit := do
    let numbers := (columns a c).map fun n => padLeft ' ' width (digitsOf n)
    let title := if a.operands.isEmpty then [] else [name.toList]
    emit (String.ofList ([' '].intercalate (numbers ++ title)) ++ "\n")
  let mut total : Counts := {}
  let mut status := 0
  for name in names do
    match ← contents name with
    | .ok t =>
      let c := ofText t
      total := total.plus c
      tell c (if name = "-" then name else shown name)
    | .error t =>
      complainOf name t
      if t = .obstacle .isDirectory then tell {} (shown name)
      status := 1
  if names.length > 1 then tell total "total"
  return status

end Stepflow.Shell.Program.Count

/-!
## Sorting lines and dropping repeated ones

Lines are compared by keys, which are parts of them, and by all their bytes if no key tells them apart. A
key compares its parts as texts or as numbers.
-/

namespace Stepflow.Shell.Program

open Act

namespace Sorted

/-- How keys are compared. -/
structure Manner where
  /-- Whether as numbers. -/
  numeric : Bool := false
  /-- Whether as numbers with letters for factors. -/
  human : Bool := false
  /-- Whether small letters count as capitals. -/
  folds : Bool := false
  /-- Whether only letters, digits and blanks count. -/
  dictionary : Bool := false
  /-- Whether only characters count that can be shown. -/
  visible : Bool := false
  /-- Whether the greater one comes first. -/
  reversed : Bool := false
  /-- Whether blanks at the start are passed over. -/
  skipsBlanks : Bool := false

/-- The manner that a letter adds. -/
def Manner.add (m : Manner) (c : Char) : Option Manner :=
  match c with
  | 'n' | 'g' => some { m with numeric := true }
  | 'h' => some { m with human := true }
  | 'f' => some { m with folds := true }
  | 'd' => some { m with dictionary := true }
  | 'i' => some { m with visible := true }
  | 'r' => some { m with reversed := true }
  | 'b' => some { m with skipsBlanks := true }
  | _ => none

/-- An end of a key: a field, and a character in it; zero is the end of the field. -/
structure Place where
  /-- The number of the field. -/
  field : Nat
  /-- The number of the character. -/
  char : Nat
  /-- Whether blanks at the start of the field are passed over. -/
  skipsBlanks : Bool := false

/-- A key. -/
structure Key where
  /-- Where it begins. -/
  start : Place := ⟨1, 1, false⟩
  /-- Where it ends, if that is not the end of the line. -/
  stop : Option Place := none
  /-- How it is compared, if that is said of it. -/
  manner : Option Manner := none

/-- Whether a character divides fields if none is named. -/
def isBlank (c : Char) : Bool := c = ' ' || c = '\t'

/-- Passes over fields. -/
def skipFields (separator : Option Char) : Nat → List Char → List Char
  | 0, cs => cs
  | n + 1, cs =>
    match separator with
    | some s => skipFields separator n ((cs.dropWhile (· ≠ s)).drop 1)
    | none => skipFields separator n ((cs.dropWhile isBlank).dropWhile fun c => !isBlank c)

/-- What is left of a line from a place on. -/
def behind (separator : Option Char) (p : Place) (l : List Char) : List Char :=
  let cs := skipFields separator (p.field - 1) l
  let cs := if p.skipsBlanks then cs.dropWhile isBlank else cs
  cs.drop (p.char - 1)

/-- What is left of a line behind the end of a key. -/
def behindStop (separator : Option Char) (p : Place) (l : List Char) : List Char :=
  if p.char = 0 then
    let cs := skipFields separator (p.field - 1) l
    match separator with
    | some s => cs.dropWhile (· ≠ s)
    | none => (cs.dropWhile isBlank).dropWhile fun c => !isBlank c
  else (behind separator { p with char := 1 } l).drop p.char

/-- The part of a line that a key is. -/
def Key.part (k : Key) (separator : Option Char) (l : List Char) : List Char :=
  let cs := behind separator k.start l
  match k.stop with
  | none => cs
  | some p => cs.take (cs.length - (behindStop separator p l).length)

/-- A decimal: its sign, its digits before the point without leading zeros, and those behind it without
trailing ones. -/
def decimal (cs : List Char) : Bool × List Char × List Char × List Char :=
  let cs := cs.dropWhile isBlank
  let (negative, cs) := match cs with
    | '-' :: rest => (true, rest)
    | _ => (false, cs)
  let whole := cs.takeWhile Char.isDigit
  let rest := cs.drop whole.length
  let (fraction, rest) := match rest with
    | '.' :: more =>
      let digits := more.takeWhile Char.isDigit
      (digits, more.drop digits.length)
    | _ => ([], rest)
  (negative, whole.dropWhile (· = '0'), (fraction.reverse.dropWhile (· = '0')).reverse, rest)

/-- Compares lists of characters by their bytes. -/
def compareTexts : List Char → List Char → Ordering
  | [], [] => .eq
  | [], _ => .lt
  | _, [] => .gt
  | a :: as, b :: bs => if a < b then .lt else if b < a then .gt else compareTexts as bs

/-- Compares decimals without signs. -/
def compareMagnitudes (a b : List Char × List Char) : Ordering :=
  (compare a.1.length b.1.length).then ((compareTexts a.1 b.1).then (compareTexts a.2 b.2))

/-- Compares two texts as numbers; `rank` is compared before the digits. -/
def compareNumbers (rank : List Char → Nat) (a b : List Char) : Ordering :=
  let (na, wa, fa, ra) := decimal a
  let (nb, wb, fb, rb) := decimal b
  let za := wa.isEmpty && fa.isEmpty
  let zb := wb.isEmpty && fb.isEmpty
  let na := na && !za
  let nb := nb && !zb
  let size := (compare (if za then 0 else rank ra) (if zb then 0 else rank rb)).then
    (compareMagnitudes (wa, fa) (wb, fb))
  match na, nb with
  | false, false => size
  | true, true => size.swap
  | true, false => .lt
  | false, true => .gt

/-- The letters for factors, the least first. -/
def factorLetters : List Char := ['K', 'M', 'G', 'T', 'P', 'E', 'Z', 'Y']

/-- How great the factor is for which the letter in front of a text stands. -/
def factorRank (cs : List Char) : Nat :=
  match cs with
  | c :: _ => if c = 'k' then 1 else (factorLetters.idxOf? c).elim 0 (· + 1)
  | [] => 0

/-- The characters of a part that count. -/
def counted (m : Manner) (cs : List Char) : List Char :=
  let cs := if m.skipsBlanks then cs.dropWhile isBlank else cs
  let cs := if m.dictionary then cs.filter fun c => c.isAlphanum || isBlank c else cs
  let cs := if m.visible then cs.filter isVisible else cs
  if m.folds then cs.map Char.toUpper else cs

/-- Compares two parts. -/
def Manner.compare (m : Manner) (a b : List Char) : Ordering :=
  let o :=
    if m.human then compareNumbers factorRank a b
    else if m.numeric then compareNumbers (fun _ => 0) a b
    else compareTexts (counted m a) (counted m b)
  if m.reversed then o.swap else o

/-- How lines are sorted. -/
structure Order where
  /-- The keys. -/
  keys : List Key
  /-- How keys are compared of which nothing is said. -/
  manner : Manner
  /-- The character between fields. -/
  separator : Option Char
  /-- Whether lines that no key tells apart stay as they are. -/
  stable : Bool

/-- Compares two lines by the keys. -/
def Order.byKeys (o : Order) (a b : List Char) : Ordering :=
  o.keys.foldl (fun found k => found.then
    ((k.manner.getD o.manner).compare (k.part o.separator a) (k.part o.separator b))) .eq

/-- Compares two lines. -/
def Order.compare (o : Order) (a b : List Char) : Ordering :=
  let whole := compareTexts a b
  (o.byKeys a b).then
    (if o.stable then .eq else if o.manner.reversed then whole.swap else whole)

/-- The options. -/
def options : Options :=
  { plain := ['b', 'c', 'C', 'd', 'f', 'g', 'h', 'i', 'm', 'n', 'r', 's', 'u', 'z'], valued := ['k', 'o', 't']
    words := [("ignore-leading-blanks", 'b', false), ("check", 'c', false),
      ("dictionary-order", 'd', false), ("ignore-case", 'f', false), ("human-numeric-sort", 'h', false),
      ("key", 'k', true), ("merge", 'm', false), ("numeric-sort", 'n', false), ("output", 'o', true),
      ("reverse", 'r', false), ("stable", 's', false), ("field-separator", 't', true),
      ("unique", 'u', false)] }

/-- Takes a number. -/
def takeNumber (cs : List Char) : Option (Nat × List Char) :=
  let digits := cs.takeWhile Char.isDigit
  if digits.isEmpty then none
  else some (digits.foldl (fun n c => n * 10 + (c.toNat - '0'.toNat)) 0, cs.drop digits.length)

/-- Takes the place of an end of a key, and the letters behind it. -/
def takePlace (usual : Nat) (cs : List Char) : Option (Place × List Char × List Char) := do
  let (field, rest) ← takeNumber cs
  let (char, rest) ← match rest with
    | '.' :: more => takeNumber more
    | _ => some (usual, rest)
  let letters := rest.takeWhile (· ≠ ',')
  return ({ field, char, skipsBlanks := letters.contains 'b' }, letters, rest.drop letters.length)

/-- The key that a value is. -/
def key? (value : String) : Option Key := do
  let (start, letters, rest) ← takePlace 1 value.toList
  let (stop, more) ← match rest with
    | [] => some (none, [])
    | _ :: cs =>
      match takePlace 0 cs with
      | some (p, letters, []) => some (some p, letters)
      | _ => none
  let all := letters ++ more
  let manner ← all.foldlM (fun (m : Manner) c => m.add c) {}
  if start.field = 0 || start.char = 0 || (stop.map (·.field)) = some 0 then none
  else
    let manner := { manner with skipsBlanks := false }
    return { start, stop, manner := if all.isEmpty then none else some manner }

/-- The number with which the program ends if something is wrong. -/
def trouble : Nat := 2

/-- The order that options ask for. -/
def orderOf (a : Arguments) : Except String Order := do
  let manner := a.options.foldl (fun (m : Manner) o => (m.add o.1).getD m) {}
  let values := a.options.filterMap fun o => if o.1 = 'k' then o.2 else none
  let keys ← values.mapM fun v =>
    match key? v with
    | some k => .ok k
    | none =>
      if v = "0" then .error ("field number is zero: invalid field specification " ++ quoted v)
      else if (v.toList.head?.map Char.isDigit).getD false then
        .error ("invalid field specification " ++ quoted v)
      else .error ("invalid number at field start: invalid count at start of " ++ quoted v)
  let keys := if keys.isEmpty then [{}] else keys
  let keys := keys.map fun (k : Key) =>
    if k.manner.isNone && manner.skipsBlanks then { k with start := { k.start with skipsBlanks := true } }
    else k
  let separator ← match (a.value? 't').map String.toList with
    | none => .ok none
    | some [c] => .ok (some c)
    | some ['\\', '0'] => .ok (some '\x00')
    | some [] => .error "empty tab"
    | some cs => .error ("multi-character tab " ++ quoted (String.ofList cs))
  return { keys, manner, separator, stable := a.has 's' || a.has 'u' }

/-- Drops lines that are equal to the one before. -/
def dropEqual (same : List Char → List Char → Bool) : List (List Char) → List (List Char)
  | a :: b :: rest => if same a b then dropEqual same (a :: rest) else a :: dropEqual same (b :: rest)
  | ls => ls
termination_by ls => ls.length

/-- The first line that comes before the one in front of it, with its number. -/
def disorder? (wrong : List Char → List Char → Bool) : Nat → List (List Char) → Option (Nat × List Char)
  | n, a :: b :: rest => if wrong a b then some (n + 1, b) else disorder? wrong (n + 1) (b :: rest)
  | _, _ => none

/-- Reads the lines of all files; nothing if one cannot be read. -/
def readLines (names : List String) : Act (Option (List (List Char))) := do
  let mut all : List (List (List Char)) := []
  for name in names do
    match ← contents name with
    | .ok t => all := lineTexts t :: all
    | .error t =>
      let what := if t = .obstacle .isDirectory then "read failed: " else "cannot read: "
      complain (what ++ shown name ++ ": " ++ t.reason)
      return none
  return some all.reverse.flatten

/-- Sorts the lines of files. -/
def program : Body := options.program trouble fun a => do
  match orderOf a with
  | .error message =>
    complain message
    return trouble
  | .ok order =>
    match ← readLines (inputs a.operands) with
    | none => return trouble
    | some ls =>
      if a.has 'c' || a.has 'C' then
        let wrong (x y : List Char) : Bool :=
          if a.has 'u' then order.compare x y ≠ .lt else order.compare x y = .gt
        match disorder? wrong 1 ls with
        | none => return 0
        | some (n, l) =>
          if a.has 'c' then
            let name := (inputs a.operands).headD "-"
            complain (name ++ ":" ++ toString n ++ ": disorder: " ++ String.ofList l)
          return 1
      let sorted := ls.mergeSort fun x y => order.compare x y ≠ .gt
      let sorted := if a.has 'u' then dropEqual (fun x y => order.byKeys x y = .eq) sorted else sorted
      match a.value? 'o' with
      | none =>
        emit (ofLines sorted)
        return 0
      | some path =>
        match ← writePath .write path (ofLines sorted) with
        | .ok () => return 0
        | .error t =>
          complain ("open failed: " ++ shown path ++ ": " ++ t.reason)
          return trouble

end Sorted

namespace Unique

/-- The options. -/
def options : Options :=
  { plain := ['c', 'd', 'D', 'i', 'u', 'z'], valued := ['f', 's', 'w']
    words := [("count", 'c', false), ("repeated", 'd', false), ("ignore-case", 'i', false),
      ("unique", 'u', false), ("skip-fields", 'f', true), ("skip-chars", 's', true),
      ("check-chars", 'w', true)] }

/-- The part of a line that is compared. -/
def part (a : Arguments) (l : List Char) : List Char :=
  let number (letter : Char) : Option Nat := (a.value? letter).bind String.toNat?
  let cs := Sorted.skipFields none ((number 'f').getD 0) l
  let cs := cs.drop ((number 's').getD 0)
  let cs := (number 'w').elim cs cs.take
  if a.has 'i' then cs.map Char.toUpper else cs

/-- Puts lines that are the same and stand together into groups. -/
def groups (same : List Char → List Char → Bool) : List (List Char) → List (List (List Char)) :=
  List.splitBy same

/-- What is written for a group. -/
def written (a : Arguments) (g : List (List Char)) : List (List Char) :=
  let wanted := if a.has 'd' && a.has 'u' then false
    else if a.has 'd' || a.has 'D' then g.length > 1
    else if a.has 'u' then g.length = 1
    else true
  if !wanted then []
  else if a.has 'D' then g
  else
    let count := if a.has 'c' then padLeft ' ' 7 (digitsOf g.length) ++ [' '] else []
    g.head?.toList.map (count ++ ·)

/-- Drops lines that are equal to the one before. -/
def program : Body := options.program 1 fun a => do
  match a.operands with
  | _ :: _ :: extra :: _ => extraOperand 1 extra
  | operands =>
    match ← contents (operands.headD "-") with
    | .error t =>
      let name := operands.headD "-"
      if t = .obstacle .isDirectory then failing ("error reading " ++ quoted name ++ ": " ++ t.reason)
      else
        complainOf name t
        return 1
    | .ok t =>
      let same (x y : List Char) : Bool := part a x = part a y
      let result := ofLines ((groups same (lineTexts t)).flatMap (written a))
      match operands with
      | [_, path] =>
        match ← writePath .write path result with
        | .ok () => return 0
        | .error t =>
          complainOf path t
          return 1
      | _ =>
        emit result
        return 0

end Unique

end Stepflow.Shell.Program
