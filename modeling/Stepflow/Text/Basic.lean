/-!
# Texts

Which characters are blank, how bytes are read as text, and how identifiers are written.
-/

/-!
## Blank characters

The characters that separate words without being seen: the Unicode property `White_Space`. The zero
width space, the byte order mark and the four information separators do not have it. Every character
that core calls whitespace is in it (`isBlank_of_isWhitespace`).

`trim` takes blanks off both ends; `trimStart` and `trimEnd` off one.
-/

namespace Stepflow.Text

/-- The code points that have the property `White_Space`, as closed ranges. -/
def blankRanges : List (Nat × Nat) :=
  [(0x09, 0x0D), (0x20, 0x20), (0x85, 0x85), (0xA0, 0xA0), (0x1680, 0x1680), (0x2000, 0x200A),
    (0x2028, 0x2029), (0x202F, 0x202F), (0x205F, 0x205F), (0x3000, 0x3000)]

/-- Whether a character is blank. -/
def isBlank (c : Char) : Bool := blankRanges.any fun r => r.1 ≤ c.toNat && c.toNat ≤ r.2

/-- The text from its first character that is not blank. -/
def trimStart (cs : List Char) : List Char := cs.dropWhile isBlank

/-- The text up to its last character that is not blank. -/
def trimEnd (cs : List Char) : List Char := (cs.reverse.dropWhile isBlank).reverse

/-- The text without the blanks at its two ends. -/
def trim (cs : List Char) : List Char := trimEnd (trimStart cs)

/-- Every character of the smaller class of white space is blank. -/
theorem isBlank_of_isWhitespace {c : Char} (h : c.isWhitespace) : isBlank c := by
  simp only [Char.isWhitespace, Bool.or_eq_true, decide_eq_true_eq] at h
  rcases h with ((h | h) | h) | h <;> subst h <;> decide

/-- Cuts a text at every occurrence of a character; there is one piece more than occurrences. -/
def splitAt (sep : Char) : List Char → List (List Char)
  | [] => [[]]
  | c :: rest =>
    if c = sep then [] :: splitAt sep rest
    else match splitAt sep rest with
      | [] => [[c]]
      | piece :: pieces => (c :: piece) :: pieces

/-- A text without the separator is one piece. -/
theorem splitAt_of_not_mem {sep : Char} {cs : List Char} (h : sep ∉ cs) : splitAt sep cs = [cs] := by
  induction cs with
  | nil => rfl
  | cons c rest ih =>
    rw [List.mem_cons, not_or] at h
    rw [splitAt, if_neg (Ne.symm h.1), ih h.2]

/-- A text in front of the first separator is the first piece. -/
theorem splitAt_append {sep : Char} {piece rest : List Char} (h : sep ∉ piece) :
    splitAt sep (piece ++ sep :: rest) = piece :: splitAt sep rest := by
  induction piece with
  | nil => exact if_pos rfl
  | cons c piece ih =>
    rw [List.mem_cons, not_or] at h
    rw [List.cons_append, splitAt, if_neg (Ne.symm h.1), ih h.2]

/-- What stands up to the first character that does not belong to it is determined. -/
theorem eq_of_append_of_stop {p : Char → Bool} {a b r s : List Char} (ha : ∀ c ∈ a, p c = true)
    (hb : ∀ c ∈ b, p c = true) (hr : ∀ c ∈ r.head?, p c = false) (hs : ∀ c ∈ s.head?, p c = false)
    (h : a ++ r = b ++ s) : a = b ∧ r = s := by
  induction a generalizing b with
  | nil =>
    cases b with
    | nil => exact ⟨rfl, h⟩
    | cons c b =>
      have hc : p c = false := hr c (by rw [List.nil_append] at h; rw [h]; rfl)
      exact absurd (hb c List.mem_cons_self) (Bool.eq_false_iff.1 hc)
  | cons c a ih =>
    cases b with
    | nil =>
      have hc : p c = false := hs c (by rw [List.nil_append] at h; rw [← h]; rfl)
      exact absurd (ha c List.mem_cons_self) (Bool.eq_false_iff.1 hc)
    | cons d b =>
      obtain ⟨rfl, hrest⟩ := List.cons.inj h
      obtain ⟨rfl, rfl⟩ := ih (fun c hc => ha c (List.mem_cons_of_mem _ hc))
        (fun c hc => hb c (List.mem_cons_of_mem _ hc)) hrest
      exact ⟨rfl, rfl⟩

/-- What follows a prefix of a text, if the text starts with it. -/
def stripPrefix? (pre : List Char) (cs : List Char) : Option (List Char) :=
  match pre, cs with
  | [], rest => some rest
  | _ :: _, [] => none
  | p :: ps, c :: rest => if p = c then stripPrefix? ps rest else none

/-- What precedes a suffix of a text, if the text ends with it. -/
def stripSuffix? (suf : List Char) (cs : List Char) : Option (List Char) :=
  (stripPrefix? suf.reverse cs.reverse).map List.reverse

/-- The text before the first occurrence of a marker and the text after it. -/
def cutAt? (marker : List Char) : List Char → Option (List Char × List Char)
  | [] => (stripPrefix? marker []).map ([], ·)
  | c :: rest =>
    match stripPrefix? marker (c :: rest) with
    | some after => some ([], after)
    | none => (cutAt? marker rest).map fun (before, after) => (c :: before, after)

/-- Whether a marker occurs in a text. -/
def hasMarker (marker cs : List Char) : Bool := (cutAt? marker cs).isSome

/-- Whether a character is one of the ten decimal digits. -/
def isDigit (c : Char) : Bool := '0' ≤ c && c ≤ '9'

/-- A number is printed with decimal digits. -/
theorem isDigit_of_mem_toDigits {n : Nat} {c : Char} (h : c ∈ Nat.toDigits 10 n) :
    isDigit c = true := by
  have hdigit := Nat.isDigit_of_mem_toDigits (by decide) (by decide) h
  simpa [isDigit, Char.isDigit, Char.le_def] using hdigit

/-- The digits of a number determine it. -/
theorem eq_of_toDigits {m n : Nat} (h : Nat.toDigits 10 m = Nat.toDigits 10 n) : m = n := by
  rw [← Nat.ofDigitChars_ten_toDigits (n := m), h, Nat.ofDigitChars_ten_toDigits]

/-- The number that a list of decimal digits writes. -/
def digitsValue (cs : List Char) : Nat := cs.foldl (fun n c => 10 * n + (c.toNat - '0'.toNat)) 0

/-- The number that a non-empty text of decimal digits writes, if it is below a bound; a plus sign
may stand in front. -/
def readNat? (bound : Nat) (cs : List Char) : Option Nat :=
  let digits := match cs with
    | '+' :: rest => rest
    | _ => cs
  if digits.isEmpty || !digits.all isDigit then none
  else if digitsValue digits < bound then some (digitsValue digits) else none

/-- Words joined by a separator. -/
def joinWith (sep : String) (words : List String) : String := sep.intercalate words

/-!
## Bytes as text

Bytes are read as text in UTF-8. What is no text is replaced: every longest run of bytes that begins a
character but does not complete it, and every byte that cannot begin one, becomes one replacement
character.
-/

/-- What stands for bytes that are no text. -/
def replacement : Char := '\ufffd'

/-- Where the reader of bytes stands. -/
inductive Utf8State where
  /-- Between two characters. -/
  | between
  /-- Inside a character: the bits read so far, the number of bytes to come, and the range in which
  the next one must lie. -/
  | inside (bits left low high : Nat)

/-- Reads the first byte of a character. -/
def firstByte (b : Nat) : List Char × Utf8State :=
  if b < 0x80 then ([Char.ofNat b], .between)
  else if b < 0xc2 then ([replacement], .between)
  else if b < 0xe0 then ([], .inside (b % 0x20) 1 0x80 0xbf)
  else if b < 0xf0 then
    ([], .inside (b % 0x10) 2 (if b = 0xe0 then 0xa0 else 0x80) (if b = 0xed then 0x9f else 0xbf))
  else if b < 0xf5 then
    ([], .inside (b % 0x08) 3 (if b = 0xf0 then 0x90 else 0x80) (if b = 0xf4 then 0x8f else 0xbf))
  else ([replacement], .between)

/-- Reads a byte: the characters that it completes, and where the reader then stands. -/
def nextByte : Utf8State → Nat → List Char × Utf8State
  | .between, b => firstByte b
  | .inside bits left low high, b =>
    if low ≤ b && b ≤ high then
      let bits := bits * 0x40 + b % 0x40
      if left = 1 then ([Char.ofNat bits], .between) else ([], .inside bits (left - 1) 0x80 0xbf)
    else
      let (cs, state) := firstByte b
      (replacement :: cs, state)

/-- Reads bytes from a state on. -/
def lossyFrom : Utf8State → List UInt8 → List Char
  | .between, [] => []
  | .inside .., [] => [replacement]
  | state, b :: rest =>
    let (cs, state) := nextByte state b.toNat
    cs ++ lossyFrom state rest

/-- The text that bytes stand for. -/
def lossy (bytes : List UInt8) : String := String.ofList (lossyFrom .between bytes)

/-- The bytes of a text. -/
def bytes (text : String) : List UInt8 := text.toUTF8.toList

end Stepflow.Text

/-!
## Identifiers

An identifier is a number of 128 bits, written as thirty-two hexadecimal digits in five groups. The
order of identifiers as texts is that of the numbers.
-/

namespace Stepflow.Identifier

/-- The number of digits. -/
def width : Nat := 32

/-- The digits of a number, with zeros in front. -/
def digits (n : Nat) : List Char :=
  let ds := Nat.toDigits 16 (n % Nat.pow 16 width)
  List.replicate (width - ds.length) '0' ++ ds

/-- The lengths of the groups. -/
def groups : List Nat := [8, 4, 4, 4, 12]

/-- Cuts a list into pieces of given lengths. -/
def cutInto {α : Type} : List Nat → List α → List (List α)
  | [], _ => []
  | n :: ns, xs => xs.take n :: cutInto ns (xs.drop n)

/-- The identifier of a number. -/
def ofNat (n : Nat) : String := "-".intercalate ((cutInto groups (digits n)).map String.ofList)

/-- The number of an identifier that begins with a time, in milliseconds, and goes on with random
bits; two marks in between say so. -/
def timed (milliseconds random : Nat) : Nat :=
  milliseconds * Nat.pow 2 80 + 7 * Nat.pow 2 76 +
    random / Nat.pow 2 62 % Nat.pow 2 12 * Nat.pow 2 64 + 2 * Nat.pow 2 62 + random % Nat.pow 2 62

end Stepflow.Identifier
