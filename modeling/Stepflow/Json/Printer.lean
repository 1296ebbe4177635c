import Stepflow.Decimal.Shortest
import Stepflow.Json.Text
import Stepflow.Value

/-!
# Printing JSON text

`Value.compact` writes a value without any space, `Value.pretty` with one member to a line and two
spaces for each level. Fields are written in the order in which they stand. A number that is not
finite is written `null`.
-/

namespace Stepflow

/-- Numbers are written positionally while the exponent of the leading digit lies between -5 and 15;
a greater exponent has a plus sign. -/
def Json.layout : Decimal.Layout := ⟨-5, 15, true⟩

namespace Value

/-- The text of a number, a word or a quoted text. -/
def scalarText : Value → String
  | .null => "null"
  | .bool b => if b then "true" else "false"
  | .int n => toString n
  | .float x => if x.isFinite then Json.layout.render x else "null"
  | .str s => Json.quote s
  | .arr _ => "[]"
  | .obj _ => "\x7b\x7d"

mutual

/-- The text of a value without any space. -/
def compact : Value → String
  | .arr items => "[" ++ compactItems items ++ "]"
  | .obj fields => "\x7b" ++ compactFields fields ++ "\x7d"
  | .null => scalarText .null
  | .bool b => scalarText (.bool b)
  | .int n => scalarText (.int n)
  | .float x => scalarText (.float x)
  | .str s => scalarText (.str s)

/-- The members of a list, separated by commas. -/
def compactItems : List Value → String
  | [] => ""
  | [v] => compact v
  | v :: rest => compact v ++ "," ++ compactItems rest

/-- The fields of an object, separated by commas. -/
def compactFields : List (String × Value) → String
  | [] => ""
  | [(k, v)] => Json.quote k ++ ":" ++ compact v
  | (k, v) :: rest => Json.quote k ++ ":" ++ compact v ++ "," ++ compactFields rest

end

/-- The start of a line at a level. -/
def lineStart (level : Nat) : String := "\n" ++ String.ofList (List.replicate (2 * level) ' ')

mutual

/-- The text of a value at a level, with one member to a line. -/
def prettyAt (level : Nat) : Value → String
  | .arr [] => "[]"
  | .arr (v :: rest) =>
    "[" ++ lineStart (level + 1) ++ prettyAt (level + 1) v ++ prettyItems (level + 1) rest ++
      lineStart level ++ "]"
  | .obj [] => "\x7b\x7d"
  | .obj ((k, v) :: rest) =>
    "\x7b" ++ lineStart (level + 1) ++ Json.quote k ++ ": " ++ prettyAt (level + 1) v ++
      prettyFields (level + 1) rest ++ lineStart level ++ "\x7d"
  | .null => scalarText .null
  | .bool b => scalarText (.bool b)
  | .int n => scalarText (.int n)
  | .float x => scalarText (.float x)
  | .str s => scalarText (.str s)

/-- The members of a list after its first. -/
def prettyItems (level : Nat) : List Value → String
  | [] => ""
  | v :: rest => "," ++ lineStart level ++ prettyAt level v ++ prettyItems level rest

/-- The fields of an object after its first. -/
def prettyFields (level : Nat) : List (String × Value) → String
  | [] => ""
  | (k, v) :: rest =>
    "," ++ lineStart level ++ Json.quote k ++ ": " ++ prettyAt level v ++ prettyFields level rest

end

/-- The text of a value with one member to a line. -/
def pretty (v : Value) : String := prettyAt 0 v

end Value

end Stepflow
