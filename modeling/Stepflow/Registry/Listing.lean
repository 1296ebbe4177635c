import Stepflow.Registry.Basic
import Stepflow.Text.Unmarked

/-!
# Listing a registry

A registry is shown as the names in each of its namespaces, in order, and whether it is lenient.
-/

/-!
## Names as they are shown

A name that is shown in quotes leaves no doubt about its characters: those with a meaning in quotes
and those that leave no mark of their own are written as escapes, all others as they are.
-/

namespace Stepflow.Text

/-- A character as it is shown in quotes. -/
def shownChar (c : Char) : List Char :=
  match c with
  | '\x00' => ['\\', '0']
  | '\t' => ['\\', 't']
  | '\n' => ['\\', 'n']
  | '\r' => ['\\', 'r']
  | '"' => ['\\', '"']
  | '\\' => ['\\', '\\']
  | _ =>
    if hasMark c then [c] else ['\\', 'u', '\x7b'] ++ Nat.toDigits 16 c.toNat ++ ['\x7d']

/-- A name as it is shown, quotes included. -/
def shown (name : String) : String :=
  "\"" ++ String.ofList (name.toList.flatMap shownChar) ++ "\""

end Stepflow.Text

namespace Stepflow.Registry

variable {κ : Type}

/-- The names of a namespace as they are shown. -/
def shownNames (r : Registry κ) (space : Namespace) : String :=
  space.word ++ ": [" ++ ", ".intercalate ((r.names space).map Text.shown) ++ "]"

/-- A registry as it is shown. -/
def shown (r : Registry κ) : String :=
  "ComponentRegistry \x7b " ++ ", ".intercalate (Namespace.all.map r.shownNames) ++
    ", lenient: " ++ (if r.lenient then "true" else "false") ++ " \x7d"

end Stepflow.Registry
