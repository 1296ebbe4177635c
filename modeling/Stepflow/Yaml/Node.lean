import Stepflow.Table
import Stepflow.Yaml.Scan

/-!
# Nodes of a YAML document

A document is one node: a scalar, a sequence, a mapping, or an alias of a node that carries an
anchor. `Node.ofTokens?` reads the grammar of tokens: at most one document, with directives in front
of it if it begins with three hyphens. Where the grammar leaves a node out, an empty plain scalar
stands.
-/

namespace Stepflow.Yaml

/-- What may stand in front of a node. -/
structure Properties where
  /-- The name that aliases use for the node. -/
  anchor : Option String := none
  /-- The tag, with its handle expanded. -/
  tag : Option Tag := none
  deriving DecidableEq, Repr

/-- A node of a document. -/
inductive Node where
  /-- A text and how it is written. -/
  | scalar (props : Properties) (text : String) (style : Style)
  /-- The node that carries this anchor. -/
  | alias (name : String)
  /-- A sequence. -/
  | seq (props : Properties) (items : List Node)
  /-- A mapping, its entries in the order in which they were written. -/
  | map (props : Properties) (entries : List (Node × Node))

namespace Node

/-- The node that stands where none was written. -/
def empty : Node := .scalar {} "" .plain

/-- The meaning of tag handles. -/
abbrev Handles := List (String × Tag)

/-- The meaning of the handles that no directive changes. -/
def defaultHandles : Handles := [("!", Tag.bare), ("!!", Tag.core "")]

/-- The tag that a handle and a suffix write. -/
def expandTag? (handles : Handles) (handle : String) (suffix : Tag) : Option Tag :=
  if handle = "" then some suffix
  else (handles.lookup handle).map (· ++ suffix)

/-- Reads the anchor and the tag in front of a node, in either order. -/
def readProperties? (handles : Handles) : List Token → Option (Properties × List Token)
  | .anchor a :: .tag h s :: rest => (expandTag? handles h s).map fun t => (⟨a, t⟩, rest)
  | .tag h s :: .anchor a :: rest => (expandTag? handles h s).map fun t => (⟨a, t⟩, rest)
  | .anchor a :: rest => some (⟨a, none⟩, rest)
  | .tag h s :: rest => (expandTag? handles h s).map fun t => (⟨none, t⟩, rest)
  | rest => some ({}, rest)

/-- The tag of a scalar; a lone exclamation mark counts as none. -/
def scalarTag (tag : Option Tag) : Option Tag := if tag = some Tag.bare then none else tag

mutual

/-- Reads a node. `block` tells whether a block collection may stand here, `flat` whether a sequence
may stand here that is not indented. -/
def readNode? (handles : Handles) :
    Nat → (block flat : Bool) → List Token → Option (Node × List Token)
  | 0, _, _, _ => none
  | _ + 1, _, _, .alias n :: rest => some (.alias n, rest)
  | fuel + 1, block, flat, ts => do
    let (props, rest) ← readProperties? handles ts
    match rest with
    | .blockEntry :: _ =>
      if flat then do
        let (items, rest) ← readFlatItems? handles fuel rest
        some (.seq props items, rest)
      else if props = {} then none
      else some (.scalar props "" .plain, rest)
    | .scalar text style :: rest =>
      some (.scalar { props with tag := scalarTag props.tag } text style, rest)
    | .flowSequenceStart :: rest => do
      let (items, rest) ← readFlowItems? handles fuel true rest
      some (.seq props items, rest)
    | .flowMappingStart :: rest => do
      let (entries, rest) ← readFlowEntries? handles fuel true rest
      some (.map props entries, rest)
    | .blockSequenceStart :: rest' =>
      if block then do
        let (items, rest) ← readBlockItems? handles fuel rest'
        some (.seq props items, rest)
      else if props = {} then none
      else some (.scalar props "" .plain, rest)
    | .blockMappingStart :: rest' =>
      if block then do
        let (entries, rest) ← readBlockEntries? handles fuel rest'
        some (.map props entries, rest)
      else if props = {} then none
      else some (.scalar props "" .plain, rest)
    | rest => if props = {} then none else some (.scalar props "" .plain, rest)

/-- Reads the members of an indented sequence and the token that ends it. -/
def readBlockItems? (handles : Handles) : Nat → List Token → Option (List Node × List Token)
  | 0, _ => none
  | _ + 1, .blockEnd :: rest => some ([], rest)
  | fuel + 1, .blockEntry :: rest => do
    let (item, rest) ← match rest with
      | .blockEntry :: _ | .blockEnd :: _ => some (empty, rest)
      | _ => readNode? handles fuel true false rest
    let (items, rest) ← readBlockItems? handles fuel rest
    some (item :: items, rest)
  | _ + 1, _ => none

/-- Reads the members of a sequence that is not indented. -/
def readFlatItems? (handles : Handles) : Nat → List Token → Option (List Node × List Token)
  | 0, _ => none
  | fuel + 1, .blockEntry :: rest => do
    let (item, rest) ← match rest with
      | .blockEntry :: _ | .key :: _ | .value :: _ | .blockEnd :: _ => some (empty, rest)
      | _ => readNode? handles fuel true false rest
    let (items, rest) ← readFlatItems? handles fuel rest
    some (item :: items, rest)
  | _ + 1, rest => some ([], rest)

/-- Reads the entries of a block mapping and the token that ends it. -/
def readBlockEntries? (handles : Handles) :
    Nat → List Token → Option (List (Node × Node) × List Token)
  | 0, _ => none
  | _ + 1, .blockEnd :: rest => some ([], rest)
  | fuel + 1, .key :: rest => do
    let (key, rest) ← match rest with
      | .key :: _ | .value :: _ | .blockEnd :: _ => some (empty, rest)
      | _ => readNode? handles fuel true true rest
    let (value, rest) ← match rest with
      | .value :: rest =>
        match rest with
        | .key :: _ | .value :: _ | .blockEnd :: _ => some (empty, rest)
        | _ => readNode? handles fuel true true rest
      | _ => some (empty, rest)
    let (entries, rest) ← readBlockEntries? handles fuel rest
    some ((key, value) :: entries, rest)
  | _ + 1, _ => none

/-- Reads the members of a flow sequence and its closing bracket. A member may be a mapping of one
entry without braces. -/
def readFlowItems? (handles : Handles) :
    Nat → (first : Bool) → List Token → Option (List Node × List Token)
  | 0, _, _ => none
  | _ + 1, _, .flowSequenceEnd :: rest => some ([], rest)
  | fuel + 1, first, ts => do
    let ts ← if first then some ts else match ts with
      | .flowEntry :: rest => some rest
      | _ => none
    match ts with
    | .flowSequenceEnd :: rest => some ([], rest)
    | .key :: rest => do
      let (key, rest) ← match rest with
        | .value :: rest | .flowEntry :: rest | .flowSequenceEnd :: rest => some (empty, rest)
        | _ => readNode? handles fuel false false rest
      let (value, rest) ← match rest with
        | .value :: rest =>
          match rest with
          | .flowEntry :: _ | .flowSequenceEnd :: _ => some (empty, rest)
          | _ => readNode? handles fuel false false rest
        | _ => some (empty, rest)
      let (items, rest) ← readFlowItems? handles fuel false rest
      some (.map {} [(key, value)] :: items, rest)
    | ts => do
      let (item, rest) ← readNode? handles fuel false false ts
      let (items, rest) ← readFlowItems? handles fuel false rest
      some (item :: items, rest)

/-- Reads the entries of a flow mapping and its closing brace. -/
def readFlowEntries? (handles : Handles) :
    Nat → (first : Bool) → List Token → Option (List (Node × Node) × List Token)
  | 0, _, _ => none
  | _ + 1, _, .flowMappingEnd :: rest => some ([], rest)
  | fuel + 1, first, ts => do
    let ts ← if first then some ts else match ts with
      | .flowEntry :: rest => some rest
      | _ => none
    match ts with
    | .flowMappingEnd :: rest => some ([], rest)
    | .key :: rest => do
      let (key, rest) ← match rest with
        | .value :: _ | .flowEntry :: _ | .flowMappingEnd :: _ => some (empty, rest)
        | _ => readNode? handles fuel false false rest
      let (value, rest) ← match rest with
        | .value :: rest =>
          match rest with
          | .flowEntry :: _ | .flowMappingEnd :: _ => some (empty, rest)
          | _ => readNode? handles fuel false false rest
        | _ => some (empty, rest)
      let (entries, rest) ← readFlowEntries? handles fuel false rest
      some ((key, value) :: entries, rest)
    | ts => do
      let (key, rest) ← readNode? handles fuel false false ts
      let (entries, rest) ← readFlowEntries? handles fuel false rest
      some ((key, empty) :: entries, rest)

end

/-- Reads the directives in front of a document: a version at most once, each handle at most once.
Gives whether there were any, and the handles. -/
def readDirectives? : (versioned : Bool) → Handles → List Token → Option (Handles × List Token)
  | versioned, handles, .versionDirective major minor :: rest =>
    if versioned || major ≠ 1 || (minor ≠ 1 && minor ≠ 2) then none
    else readDirectives? true handles rest
  | versioned, handles, .tagDirective handle expansion :: rest =>
    if (handles.lookup handle).isSome then none
    else readDirectives? versioned ((handle, expansion) :: handles) rest
  | _, handles, rest => some (handles, rest)

/-- Reads the root of a document. -/
def readRoot? (ts : List Token) : Option (Node × List Token) := do
  let explicit := match ts with
    | .versionDirective .. :: _ | .tagDirective .. :: _ | .documentStart :: _ => true
    | _ => false
  let fuel := 3 * ts.length + 8
  if explicit then do
    let (handles, ts) ← readDirectives? false [] ts
    let handles := handles ++ defaultHandles
    match ts with
    | .documentStart :: rest =>
      match rest with
      | .versionDirective .. :: _ | .tagDirective .. :: _ | .documentStart :: _
      | .documentEnd :: _ | .streamEnd :: _ => some (empty, rest)
      | _ => readNode? handles fuel true false rest
    | _ => none
  else readNode? defaultHandles fuel true false ts

/-- Reads a text that holds one document, or none at all. -/
def ofTokens? : List Token → Option (Option Node)
  | [.streamEnd] => some none
  | ts => do
    let (root, rest) ← readRoot? ts
    if rest.dropWhile (· = .documentEnd) = [.streamEnd] then some (some root) else none

/-- Reads a text that holds one document, or none at all. -/
def ofText? (text : List Char) : Option (Option Node) := (Token.ofText? text).bind ofTokens?

end Node

end Stepflow.Yaml
