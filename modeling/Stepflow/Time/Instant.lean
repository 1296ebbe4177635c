import Stepflow.Text.Basic

/-!
# Time

The days of the calendar, and instants, which are written and read as texts.
-/

/-!
## The calendar

Days are counted from the first of January 1970 and named by year, month and day of the Gregorian
calendar, extended to all years; the year before year 1 is year 0. The computation starts the year in
March, so that the leap day is its last day, and goes by eras of 400 years, which have equally many
days.
-/

namespace Stepflow.Time

/-- A day of the calendar. -/
structure Date where
  /-- The year. -/
  year : Int
  /-- The month, from 1 to 12. -/
  month : Nat
  /-- The day of the month, from 1. -/
  day : Nat
  deriving DecidableEq, Repr

/-- Whether a year has a leap day. -/
def isLeapYear (year : Int) : Bool := year % 4 = 0 && (year % 100 ≠ 0 || year % 400 = 0)

/-- The number of days of a month. -/
def monthLength (year : Int) (month : Nat) : Nat :=
  if month = 2 then if isLeapYear year then 29 else 28
  else if [4, 6, 9, 11].contains month then 30
  else 31

/-- The least and the greatest year that a date may have. -/
def yearBounds : Int × Int := (-262143, 262142)

namespace Date

/-- Whether a date names a day. -/
def isValid (d : Date) : Bool :=
  yearBounds.1 ≤ d.year && d.year ≤ yearBounds.2 && 1 ≤ d.month && d.month ≤ 12 && 1 ≤ d.day &&
    d.day ≤ monthLength d.year d.month

/-- The days of an era of 400 years. -/
def eraLength : Int := 146097

/-- The days from the first of March of year 0 to the first of January 1970. -/
def epochOffset : Int := 719468

/-- The count of days from the first of January 1970 to a date. -/
def toDays (d : Date) : Int :=
  let year := if d.month ≤ 2 then d.year - 1 else d.year
  let month : Int := if d.month ≤ 2 then (d.month : Int) + 9 else (d.month : Int) - 3
  let era := year.fdiv 400
  let yearOfEra := year - era * 400
  let dayOfYear := (153 * month + 2) / 5 + (d.day : Int) - 1
  era * eraLength + (yearOfEra * 365 + yearOfEra / 4 - yearOfEra / 100 + dayOfYear) - epochOffset

/-- The date of a count of days. -/
def ofDays (days : Int) : Date :=
  let z := days + epochOffset
  let era := z.fdiv eraLength
  let dayOfEra := z - era * eraLength
  let yearOfEra := (dayOfEra - dayOfEra / 1460 + dayOfEra / 36524 - dayOfEra / 146096) / 365
  let dayOfYear := dayOfEra - (365 * yearOfEra + yearOfEra / 4 - yearOfEra / 100)
  let month := (5 * dayOfYear + 2) / 153
  let day := dayOfYear - (153 * month + 2) / 5 + 1
  let year := yearOfEra + era * 400
  if month < 10 then ⟨year, (month + 3).toNat, day.toNat⟩
  else ⟨year + 1, (month - 9).toNat, day.toNat⟩

end Date

end Stepflow.Time

/-!
## Instants

An instant is a count of seconds and a fraction in nanoseconds. During a leap second the count stands
still and the fraction goes on beyond a whole second.

An instant is written as a date, a `T`, a time of day and a `Z`, with no more digits for the fraction
than needed: none, three, six or nine. Reading is more lenient: blanks may stand between the parts, a
blank may stand for the `T`, and the time may be that of another place, with the distance to the
prime meridian's behind it.
-/

namespace Stepflow

open Text

/-- A point in time. -/
structure Instant where
  /-- The seconds since the beginning of 1970. -/
  seconds : Int
  /-- The nanoseconds since that second began; at least a billion during a leap second. -/
  nanos : Nat
  deriving DecidableEq, Repr, Inhabited

namespace Instant

open Time

/-- The nanoseconds of a second. -/
def second : Nat := 1000000000

/-- The seconds of a day. -/
def dayLength : Int := 86400

/-- Whether an instant comes before another or is the same. -/
def le (a b : Instant) : Bool :=
  a.seconds < b.seconds || (a.seconds = b.seconds && a.nanos ≤ b.nanos)

/-! ### Writing -/

/-- A number with zeros in front, up to a width. -/
def padded (width n : Nat) : String :=
  let digits := toString n
  String.ofList (List.replicate (width - digits.length) '0') ++ digits

/-- A year: four digits, and a sign where these are not enough. -/
def yearText (year : Int) : String :=
  if 0 ≤ year ∧ year ≤ 9999 then padded 4 year.toNat
  else (if year < 0 then "-" else "+") ++ padded 4 year.natAbs

/-- A fraction of a second with its point. -/
def fractionText (nanos : Nat) : String :=
  if nanos = 0 then ""
  else if nanos % 1000000 = 0 then "." ++ padded 3 (nanos / 1000000)
  else if nanos % 1000 = 0 then "." ++ padded 6 (nanos / 1000)
  else "." ++ padded 9 nanos

/-- The text of an instant. -/
def text (i : Instant) : String :=
  let days := i.seconds.fdiv dayLength
  let date := Date.ofDays days
  let time := (i.seconds - days * dayLength).toNat
  let leap := second ≤ i.nanos
  yearText date.year ++ "-" ++ padded 2 date.month ++ "-" ++ padded 2 date.day ++ "T" ++
    padded 2 (time / 3600) ++ ":" ++ padded 2 (time / 60 % 60) ++ ":" ++
    padded 2 (time % 60 + if leap then 1 else 0) ++
    fractionText (if leap then i.nanos - second else i.nanos) ++ "Z"

/-! ### Reading -/

/-- Reads a number of at least one and at most `most` digits. -/
def readNumber? (most : Nat) (cs : List Char) : Option (Nat × List Char) :=
  let digits := (cs.take most).takeWhile isDigit
  if digits.isEmpty then none else some (digitsValue digits, cs.drop digits.length)

/-- Reads a year: four digits, or any number behind a sign. -/
def readYear? (cs : List Char) : Option (Int × List Char) :=
  match cs with
  | '-' :: rest => (readNumber? rest.length rest).map fun (n, rest) => (-(n : Int), rest)
  | '+' :: rest => (readNumber? rest.length rest).map fun (n, rest) => ((n : Int), rest)
  | _ => (readNumber? 4 cs).map fun (n, rest) => ((n : Int), rest)

/-- Reads a number of one or two digits behind blanks. -/
def readField? (cs : List Char) : Option (Nat × List Char) := readNumber? 2 (trimStart cs)

/-- Passes over a sign behind blanks. -/
def skipSign? (sign : Char) (cs : List Char) : Option (List Char) :=
  stripPrefix? [sign] (trimStart cs)

/-- Reads the fraction of a second, if there is one; digits after the ninth are passed over. -/
def readFraction? (cs : List Char) : Option (Nat × List Char) :=
  match cs with
  | '.' :: rest =>
    let digits := (rest.take 9).takeWhile isDigit
    if digits.isEmpty then none
    else some (digitsValue digits * Nat.pow 10 (9 - digits.length), rest.dropWhile isDigit)
  | _ => some (0, cs)

/-- Reads two digits, the first of which is at most `most`. -/
def readPair? (most : Char) : List Char → Option (Nat × List Char)
  | a :: b :: rest =>
    if isDigit a && isDigit b && a ≤ most then some (digitsValue [a, b], rest) else none
  | _ => none

/-- Reads how far a time is ahead, in seconds. -/
def readOffset? (cs : List Char) : Option (Int × List Char) :=
  match cs with
  | 'Z' :: rest | 'z' :: rest => some (0, rest)
  | _ =>
    if (cs.take 3).map Char.toLower = ['u', 't', 'c'] then some (0, cs.drop 3)
    else do
      let (ahead, rest) ← match cs with
        | '+' :: rest => some (true, rest)
        | c :: rest => if c = '-' || c.toNat = 0x2212 then some (false, rest) else none
        | [] => none
      let (hours, rest) ← readPair? '9' rest
      let (minutes, rest) ← readPair? '5' (rest.dropWhile fun c => c = ':' || isBlank c)
      let distance : Int := hours * 3600 + minutes * 60
      if distance < dayLength then some (if ahead then distance else -distance, rest) else none

/-- The instant at which a clock that is `offset` seconds ahead shows a time. Second 60 is a leap
second. -/
def ofClock? (date : Date) (hour minute sec nanos : Nat) (offset : Int) : Option Instant :=
  if !date.isValid || 23 < hour || 59 < minute || 60 < sec then none
  else
    let shown := date.toDays * dayLength + (hour * 3600 + minute * 60 + min sec 59 : Nat)
    let seconds := shown - offset
    let year := (Date.ofDays (seconds.fdiv dayLength)).year
    if year < yearBounds.1 || yearBounds.2 < year then none
    else some ⟨seconds, if sec = 60 then second + nanos else nanos⟩

/-- Reads an instant. -/
def read? (s : String) : Option Instant := do
  let (year, rest) ← readYear? (trimStart s.toList)
  let rest ← skipSign? '-' rest
  let (month, rest) ← readField? rest
  let rest ← skipSign? '-' rest
  let (day, rest) ← readField? rest
  let rest ← match rest with
    | c :: rest => if c = 'T' || c = 't' || c = ' ' then some rest else none
    | [] => none
  let (hour, rest) ← readField? rest
  let rest ← skipSign? ':' rest
  let (minute, rest) ← readField? rest
  let rest ← skipSign? ':' rest
  let (sec, rest) ← readField? rest
  let (nanos, rest) ← readFraction? rest
  let (offset, rest) ← readOffset? (trimStart rest)
  if trimStart rest ≠ [] then none
  else ofClock? ⟨year, month, day⟩ hour minute sec nanos offset

end Instant

end Stepflow
