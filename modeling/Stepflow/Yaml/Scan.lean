import Stepflow.Yaml.Token

/-!
# From characters to tokens

A `Scan` holds what has to be remembered while a text is turned into tokens: the columns of the open
block collections, and for each level of flow collections the place where a key without an indicator
may have begun. When a colon confirms such a key, the token that announces it is put in front of the
tokens read since.

`Token.ofText?` is the list of all tokens of a text.
-/

namespace Stepflow.Yaml

/-- A place where a key may have begun. -/
structure KeyPlace where
  /-- Whether a key is still possible there. -/
  possible : Bool := false
  /-- Whether only a key can stand there. -/
  required : Bool := false
  /-- The count of tokens before it. -/
  tokens : Nat := 0
  /-- Its line. -/
  line : Nat := 0
  /-- Its column. -/
  column : Nat := 0
  /-- The count of bytes before it. -/
  index : Nat := 0

/-- The state of a scan. -/
structure Scan where
  /-- The place in the text. -/
  cursor : Cursor
  /-- The tokens so far. -/
  tokens : Array Token := #[]
  /-- The column of the innermost open block collection, -1 outside all. -/
  indent : Int := -1
  /-- The columns of the block collections around it. -/
  outer : List Int := []
  /-- Whether a key without an indicator may begin here. -/
  keyAllowed : Bool := true
  /-- The place of a possible key, for the innermost flow collection first; one for each level. -/
  keys : List KeyPlace := [{}]

namespace Scan

/-- Whether the scan is inside a flow collection. -/
def inFlow (s : Scan) : Bool :=
  match s.keys with
  | _ :: _ :: _ => true
  | _ => false

/-- Appends a token. -/
def emit (s : Scan) (t : Token) : Scan := { s with tokens := s.tokens.push t }

/-- Gives up every key that can no longer be confirmed: one on an earlier line, or more than 1024
bytes back. A required one may not be given up. -/
def dropStale? (s : Scan) : Option Scan := do
  let stale (k : KeyPlace) : Bool :=
    k.possible && (k.line < s.cursor.line || k.index + 1024 < s.cursor.index)
  if s.keys.any fun k => stale k && k.required then none
  else some { s with keys := s.keys.map fun k => if stale k then { k with possible := false } else k }

/-- Gives up the key of the innermost level. -/
def dropKey? (s : Scan) : Option Scan :=
  match s.keys with
  | [] => some s
  | k :: rest =>
    if k.possible && k.required then none
    else some { s with keys := { k with possible := false } :: rest }

/-- Notes that a key may begin here. -/
def noteKey? (s : Scan) : Option Scan :=
  if !s.keyAllowed then some s
  else do
    let s ← s.dropKey?
    let place : KeyPlace :=
      { possible := true, required := !s.inFlow && s.indent = s.cursor.column,
        tokens := s.tokens.size, line := s.cursor.line, column := s.cursor.column,
        index := s.cursor.index }
    some { s with keys := place :: s.keys.tail }

/-- Opens a block collection at a column further in than the innermost one; its token is put behind
`place` others, or at the end. -/
def openBlock (s : Scan) (column : Nat) (place : Option Nat) (t : Token) : Scan :=
  if s.inFlow || (column : Int) ≤ s.indent then s
  else
    { s with
      outer := s.indent :: s.outer
      indent := column
      tokens := match place with
        | none => s.tokens.push t
        | some n => s.tokens.insertIdxIfInBounds n t }

/-- Closes the block collections that are further in than a column. -/
def closeBlocks (column : Int) (s : Scan) : Scan :=
  if s.inFlow then s
  else go s.outer s
where
  go : List Int → Scan → Scan
    | [], s => s
    | i :: rest, s =>
      if column < s.indent then
        go rest { s with indent := i, outer := rest, tokens := s.tokens.push .blockEnd }
      else s

/-- Passes blanks, comments and breaks, and a byte order mark at the start of a line. Outside flow
collections a break allows a key, and a tab in front of one is left for the next token to refuse. -/
def skipBlanks : Nat → Scan → Scan
  | 0, s => s
  | fuel + 1, s =>
    let c := s.cursor
    let c := if c.column = 0 && c.peek.any (fun x => x.toNat = 0xFEFF) then c.skip else c
    let tabs := s.inFlow || !s.keyAllowed
    let c := (c.readWhile fun x => x = ' ' || (tabs && x = '\t')).2
    let c := if c.sees '#' then c.skipLine else c
    if c.peek.any isBreak then
      skipBlanks fuel
        { s with cursor := c.readBreak.2, keyAllowed := s.keyAllowed || !s.inFlow }
    else { s with cursor := c }

/-- Ends all block collections in front of a token at the outermost level. -/
def atTop? (s : Scan) : Option Scan := do
  let s ← (s.closeBlocks (-1)).dropKey?
  some { s with keyAllowed := false }

/-- Reads an indicator of one character. -/
def indicator (s : Scan) (t : Token) : Scan := { s.emit t with cursor := s.cursor.skip }

/-- Reads the token of a scalar, an anchor or a tag, which may all begin a key. -/
def item? (s : Scan) (read : Cursor → Option (Token × Cursor)) : Option Scan := do
  let s ← s.noteKey?
  let (t, c) ← read s.cursor
  some { s.emit t with cursor := c, keyAllowed := false }

/-- Reads a colon: it confirms the key of the innermost level, or follows one that an indicator
announced. -/
def value? (s : Scan) : Option Scan := do
  match s.keys with
  | k :: rest =>
    if k.possible then
      let s := { s with tokens := s.tokens.insertIdxIfInBounds k.tokens .key }
      let s := s.openBlock k.column (some k.tokens) .blockMappingStart
      some ({ s with keys := { k with possible := false } :: rest, keyAllowed := false }.indicator
        .value)
    else if s.inFlow then some ({ s with keyAllowed := false }.indicator .value)
    else if !s.keyAllowed then none
    else
      let s := s.openBlock s.cursor.column none .blockMappingStart
      some ({ s with keyAllowed := true }.indicator .value)
  | [] => none

/-- Reads a plain scalar. -/
def plain? (s : Scan) : Option Scan := do
  let s ← s.noteKey?
  let c := s.cursor
  let (text, c, broken) ←
    readPlainWords? s.inFlow (s.indent + 1).toNat (c.size + 1) {} c
  some { s.emit (.scalar (String.ofList text) .plain) with cursor := c, keyAllowed := broken }

/-- Whether a plain scalar may begin here. -/
def startsPlain (s : Scan) (x : Char) : Bool :=
  let c := s.cursor
  let special := ['-', '?', ':', ',', '[', ']', '{', '}', '#', '&', '*', '!', '|', '>', '\'', '"',
    '%', '@', '\x60']
  !(isGap x || isBreak x || special.contains x) ||
    (x = '-' && !(c.peekAt 1).any isGap) ||
    (!s.inFlow && (x = '?' || x = ':') && !c.blankAt 1)

/-- Reads the next token at a character. -/
def token? (s : Scan) (x : Char) : Option Scan :=
  let c := s.cursor
  if c.column = 0 && x = '%' then do
    let s ← s.atTop?
    let (t, c) ← readDirective? c
    some { s.emit t with cursor := c }
  else if c.atMarker '-' then do
    let s ← s.atTop?
    some { s.emit .documentStart with cursor := c.skipMany 3 }
  else if c.atMarker '.' then do
    let s ← s.atTop?
    some { s.emit .documentEnd with cursor := c.skipMany 3 }
  else if x = '[' || x = '{' then do
    let s ← s.noteKey?
    let s := { s with keys := {} :: s.keys, keyAllowed := true }
    some (s.indicator (if x = '[' then .flowSequenceStart else .flowMappingStart))
  else if x = ']' || x = '}' then do
    let s ← s.dropKey?
    let s := { s with keys := if s.inFlow then s.keys.tail else s.keys, keyAllowed := false }
    some (s.indicator (if x = ']' then .flowSequenceEnd else .flowMappingEnd))
  else if x = ',' then do
    let s ← s.dropKey?
    some ({ s with keyAllowed := true }.indicator .flowEntry)
  else if x = '-' && c.blankAt 1 then do
    if !s.inFlow && !s.keyAllowed then none
    let s := s.openBlock c.column none .blockSequenceStart
    let s ← s.dropKey?
    some ({ s with keyAllowed := true }.indicator .blockEntry)
  else if x = '?' && (s.inFlow || c.blankAt 1) then do
    if !s.inFlow && !s.keyAllowed then none
    let s := s.openBlock c.column none .blockMappingStart
    let s ← s.dropKey?
    some ({ s with keyAllowed := !s.inFlow }.indicator .key)
  else if x = ':' && (s.inFlow || c.blankAt 1) then s.value?
  else if x = '*' then s.item? fun c => (readAnchor? c).map fun (n, c) => (.alias n, c)
  else if x = '&' then s.item? fun c => (readAnchor? c).map fun (n, c) => (.anchor n, c)
  else if x = '!' then s.item? (readTag? s.inFlow)
  else if (x = '|' || x = '>') && !s.inFlow then do
    let s ← s.dropKey?
    let (t, c) ← readBlock? (x = '|') s.indent c
    some { s.emit t with cursor := c, keyAllowed := true }
  else if x = '\'' then s.item? (readQuoted? true)
  else if x = '"' then s.item? (readQuoted? false)
  else if s.startsPlain x then s.plain?
  else none

/-- Reads all tokens that are left; every one but the last takes a character. -/
def run? : Nat → Scan → Option (List Token)
  | 0, _ => none
  | fuel + 1, s => do
    let s := s.skipBlanks (s.cursor.size + 1)
    let s ← s.dropStale?
    let s := s.closeBlocks s.cursor.column
    match s.cursor.peek with
    | none =>
      let s ← s.atTop?
      some (s.emit .streamEnd).tokens.toList
    | some x => (s.token? x).bind (run? fuel)

end Scan

/-- The tokens of a text. -/
def Token.ofText? (text : List Char) : Option (List Token) :=
  if !text.all isAllowed then none
  else Scan.run? (text.length + 1) { cursor := { rest := text } }

end Stepflow.Yaml
