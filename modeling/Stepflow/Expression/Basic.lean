import Stepflow.Value

/-!
# References

A reference names a piece of the data of a run: an input, the output of a step, or a configuration
value, and a path into it. It is written between `${{` and `}}`, and the word `not` in front of it
asks for the opposite of its truth.

This file holds the type of references, the ways in which reading or looking one up can fail, and
the wording of each failure.
-/

/-!
## Paths

A path leads from a value to a part of it, through fields of objects and places in lists. References
are paths into the data of a run, locations are paths into a document. `Value.follow?` walks along a
path.

The two are written differently: a reference with a point in front of every segment (`dotted`), a
location with places in brackets (`Location.text`).
-/

namespace Stepflow

/-- One step of a path: into a field of an object or to a place in a list. -/
inductive Segment where
  /-- The field of this name. -/
  | field (name : String)
  /-- The member at this place, counted from zero. -/
  | index (place : Nat)
  deriving DecidableEq, Repr

namespace Segment

/-- The text of a segment inside a dotted path. -/
def text : Segment → String
  | .field name => name
  | .index place => toString place

/-- One step of a path into a value. -/
def enter? : Segment → Value → Option Value
  | .field name, .obj fields => Table.get? fields name
  | .index place, .arr items => items[place]?
  | _, _ => none

end Segment

/-- The part of a value that a path leads to. -/
def Value.follow? : List Segment → Value → Option Value
  | [], v => some v
  | s :: rest, v => (s.enter? v).bind (follow? rest)

/-- A place in a document, as the path that leads there from its root. -/
abbrev Location := List Segment

namespace Location

/-- The text of a location: fields with points between them, places in brackets. -/
def text : Location → String
  | [] => ""
  | .field name :: rest => name ++ tail rest
  | .index place :: rest => "[" ++ toString place ++ "]" ++ tail rest
where
  tail : Location → String
    | [] => ""
    | .field name :: rest => "." ++ name ++ tail rest
    | .index place :: rest => "[" ++ toString place ++ "]" ++ tail rest

/-- The location of a field. -/
def field (l : Location) (name : String) : Location := l ++ [.field name]

/-- The location of a member of a list. -/
def index (l : Location) (place : Nat) : Location := l ++ [.index place]

end Location

/-! ## Kinds of references -/

/-- What a reference starts from. -/
inductive Root where
  /-- An input of the run. -/
  | input
  /-- What a step produced. -/
  | stepOutput
  /-- A configuration value. -/
  | config
  deriving DecidableEq, Repr

/-- The word that a root is written with. -/
def Root.word : Root → String
  | .input => "inputs"
  | .stepOutput => "steps"
  | .config => "config"

/-- The root that a word writes. -/
def Root.ofWord? (word : String) : Option Root :=
  if word = "inputs" then some .input
  else if word = "steps" then some .stepOutput
  else if word = "config" then some .config
  else none

/-- A path in dotted form, with its root in front. -/
def dotted (root : Root) (path : List Segment) : String :=
  path.foldl (fun acc s => acc ++ "." ++ s.text) root.word

/-- A reference. The path starts with the name of the input, step or configuration value; for a step
the name is followed by `output`. -/
structure Expression where
  /-- The text that was read, without the blanks around it. -/
  raw : String
  /-- What the path starts from. -/
  root : Root
  /-- The path from the root. -/
  path : List Segment
  /-- Whether the opposite of the value's truth is asked for. -/
  negated : Bool
  deriving DecidableEq, Repr

namespace Expression

/-- The name of the input, step or configuration value that the path starts with. -/
def rootName (e : Expression) : String :=
  match e.path with
  | .field name :: _ => name
  | _ => ""

/-- The name of the step whose output is referred to. -/
def stepName? (e : Expression) : Option String :=
  if e.root = .stepOutput then some e.rootName else none

/-- The whole path in dotted form. -/
def dottedPath (e : Expression) : String := dotted e.root e.path

/-- The ways in which a text can fail to be a reference. -/
inductive SyntaxCause where
  /-- The text is not enclosed in the two markers. -/
  | notEnclosed
  /-- Nothing stands between the markers. -/
  | emptyReference
  /-- Nothing stands between two points. -/
  | emptySegment
  /-- A place is too large a number. -/
  | badIndex (head : String)
  /-- A name has a character that names do not have. -/
  | invalidSegment (head : String)
  /-- A bracket is not closed. -/
  | unclosedBracket
  /-- The text in a pair of brackets is not a whole number. -/
  | indexNotInteger (digits : String)
  /-- Something other than a bracket follows a bracket. -/
  | trailing (rest : String)
  /-- The path starts with a place. -/
  | missingRoot
  /-- The path starts with a name that is no root. -/
  | unknownRoot (word : String)
  /-- A place follows the root. -/
  | indexAfterRoot (word : String)
  /-- Nothing follows the root. -/
  | nothingAfterRoot (word : String)
  /-- The name of a step is not followed by `output`. -/
  | notAnOutput
  /-- The opening marker has no closing one behind it. -/
  | unterminated
  deriving DecidableEq, Repr

/-- The wording of a cause. -/
def SyntaxCause.message : SyntaxCause → String
  | .notEnclosed => "expected '$\x7b\x7b ... \x7d\x7d'"
  | .emptyReference => "empty reference"
  | .emptySegment => "empty path segment"
  | .badIndex head => "bad index '" ++ head ++ "'"
  | .invalidSegment head => "invalid path segment '" ++ head ++ "'"
  | .unclosedBracket => "unclosed '['"
  | .indexNotInteger digits => "index '" ++ digits ++ "' is not an integer"
  | .trailing rest => "unexpected '" ++ rest ++ "' after index"
  | .missingRoot => "missing root"
  | .unknownRoot word => "unknown root '" ++ word ++ "' (expected inputs, steps or config)"
  | .indexAfterRoot word => "'" ++ word ++ "' must be followed by a name, not an index"
  | .nothingAfterRoot word => "'" ++ word ++ "' must be followed by a name"
  | .notAnOutput => "step references must have the form steps.<name>.output[.<field>...]"
  | .unterminated => "unterminated expression"

/-- A text that is not a reference, and why. -/
structure SyntaxError where
  /-- The text. -/
  text : String
  /-- Why it is not a reference. -/
  cause : SyntaxCause
  deriving DecidableEq, Repr

/-- The wording of a failure to read a reference. -/
def SyntaxError.message (e : SyntaxError) : String :=
  "invalid expression '" ++ e.text ++ "': " ++ e.cause.message

/-- The ways in which a reference can lead nowhere. -/
inductive LookupCause where
  /-- There is no configuration value of this name. -/
  | configUnset (name : String)
  /-- The step of this name has no output. -/
  | noOutput (name : String)
  /-- The path leaves the data at a segment; `place` is the path before it. -/
  | notFound (segment : Segment) (place : String)
  deriving DecidableEq, Repr

/-- The wording of a cause. -/
def LookupCause.message : LookupCause → String
  | .configUnset name => "config key '" ++ name ++ "' is not set"
  | .noOutput name => "step '" ++ name ++ "' has no recorded output"
  | .notFound segment place => "'" ++ segment.text ++ "' not found in " ++ place

/-- A reference that leads nowhere, and why. -/
structure LookupError where
  /-- The whole path in dotted form. -/
  path : String
  /-- Why it leads nowhere. -/
  cause : LookupCause
  deriving DecidableEq, Repr

/-- The wording of a failure to look a reference up. -/
def LookupError.message (e : LookupError) : String :=
  "cannot resolve '" ++ e.path ++ "': " ++ e.cause.message

/-- A failure to read a reference or to look it up. -/
inductive Failure where
  /-- The text is not a reference. -/
  | unreadable (e : SyntaxError)
  /-- The reference leads nowhere. -/
  | unresolved (e : LookupError)
  deriving DecidableEq, Repr

/-- The wording of a failure. -/
def Failure.message : Failure → String
  | .unreadable e => e.message
  | .unresolved e => e.message

end Expression

end Stepflow
