/-!
# Quoted texts of JSON

Between its quotes a text is written with a backslash before a quote and before a backslash; control
characters have names of their own or are written as code units in four hexadecimal digits. Reading
understands in addition a solidus behind a backslash and any code unit, two of which may stand for
one character.
-/

namespace Stepflow.Json

/-- A hexadecimal digit of a small number. -/
def hexDigit (n : Nat) : Char := if n < 10 then Char.ofNat (48 + n) else Char.ofNat (87 + n)

/-- The number that a hexadecimal digit of either case writes. -/
def hexValue? (c : Char) : Option Nat :=
  if '0' ≤ c && c ≤ '9' then some (c.toNat - 48)
  else if 'a' ≤ c && c ≤ 'f' then some (c.toNat - 87)
  else if 'A' ≤ c && c ≤ 'F' then some (c.toNat - 55)
  else none

/-- The written form of one character. -/
def encodeChar (c : Char) : List Char :=
  if c = '"' then ['\\', '"']
  else if c = '\\' then ['\\', '\\']
  else if c = '\n' then ['\\', 'n']
  else if c = '\r' then ['\\', 'r']
  else if c = '\t' then ['\\', 't']
  else if c.toNat = 8 then ['\\', 'b']
  else if c.toNat = 12 then ['\\', 'f']
  else if c.toNat < 32 then
    ['\\', 'u', '0', '0', hexDigit (c.toNat / 16), hexDigit (c.toNat % 16)]
  else [c]

/-- The written form of a text, with its quotes. -/
def quote (s : String) : String :=
  String.ofList ('"' :: (s.toList.flatMap encodeChar ++ ['"']))

/-- What a text consists of while it is read: characters, and code units written as numbers. -/
inductive Piece where
  /-- A character as it stands, or the one that a named escape means. -/
  | char (c : Char)
  /-- A code unit of 16 bits. -/
  | unit (n : Nat)
  deriving DecidableEq

/-- Reads a text up to its closing quote. Control characters, unknown escapes and a missing quote
are refused; whether the code units make sense is judged later. -/
def readPieces? : List Char → Option (List Piece × List Char)
  | [] => none
  | '"' :: rest => some ([], rest)
  | '\\' :: 'u' :: a :: b :: c :: d :: rest => do
    let n := ((← hexValue? a) * 16 + (← hexValue? b)) * 256 + (← hexValue? c) * 16 + (← hexValue? d)
    let (ps, rest) ← readPieces? rest
    some (.unit n :: ps, rest)
  | '\\' :: e :: rest => do
    let c ← match e with
      | '"' => some '"'
      | '\\' => some '\\'
      | '/' => some '/'
      | 'b' => some (Char.ofNat 8)
      | 'f' => some (Char.ofNat 12)
      | 'n' => some '\n'
      | 'r' => some '\r'
      | 't' => some '\t'
      | _ => none
    let (ps, rest) ← readPieces? rest
    some (.char c :: ps, rest)
  | c :: rest =>
    if c.toNat < 32 then none
    else do
      let (ps, rest) ← readPieces? rest
      some (.char c :: ps, rest)

/-- The characters that the pieces mean: a code unit of the upper half of a pair needs one of the
lower half behind it, and the latter may stand nowhere else. -/
def decodePieces? : List Piece → Option (List Char)
  | [] => some []
  | .char c :: rest => (decodePieces? rest).map (c :: ·)
  | .unit n :: rest =>
    if 0xD800 ≤ n && n < 0xDC00 then
      match rest with
      | .unit m :: rest =>
        if 0xDC00 ≤ m && m < 0xE000 then
          (decodePieces? rest).map
            (Char.ofNat (0x10000 + (n - 0xD800) * 0x400 + (m - 0xDC00)) :: ·)
        else none
      | _ => none
    else if 0xDC00 ≤ n && n < 0xE000 then none
    else (decodePieces? rest).map (Char.ofNat n :: ·)

end Stepflow.Json
