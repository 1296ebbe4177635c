import Stepflow.Shell.Streams

/-!
# Variables

A shell keeps the variables that were set or unset in it; the others have the values that it found when
it started, and are given to processes. While a function runs, variables may be hidden, and have their
old values again behind it.
-/

namespace Stepflow.Shell

/-- Puts an entry into a list, in the place of one of the same name if there is one. -/
def putEntry {α : Type} (entries : List (String × α)) (name : String) (a : α) : List (String × α) :=
  if (entries.lookup name).isSome then entries.map fun e => if e.1 = name then (name, a) else e
  else entries ++ [(name, a)]

/-- Takes an entry out of a list. -/
def dropEntry {α : Type} (entries : List (String × α)) (name : String) : List (String × α) :=
  entries.filter fun e => e.1 ≠ name

/-- A text between single quotes, so that it stands for itself; a single quote in it stands between
double quotes. -/
def singleQuoted (s : String) : String := String.ofList (go s.toList.length s.toList)
where
  /-- Quotes a run of other characters and a run of single quotes, and goes on. -/
  go : Nat → List Char → List Char
    | 0, [] => ['\'', '\'']
    | 0, _ => []
    | n + 1, cs =>
      let plain := cs.takeWhile (· ≠ '\'')
      let rest := cs.drop plain.length
      let marks := rest.takeWhile (· = '\'')
      let after := rest.drop marks.length
      let start := '\'' :: plain ++ ['\'']
      if marks.isEmpty then start
      else start ++ '"' :: marks ++ '"' :: (if after.isEmpty then [] else go n after)

namespace Session

/-- A variable. -/
def lookup (s : Session) (name : String) : Variable :=
  match s.ownVariables.lookup name with
  | some v => v
  | none =>
    match s.found name with
    | some value => { value := some value, exported := true }
    | none => {}

/-- The value of a variable, if it has one. -/
def value? (s : Session) (name : String) : Option String := (s.lookup name).value

/-- The characters that divide words. -/
def separators (s : Session) : List Char := ((s.value? "IFS").getD " \t\n").toList

/-- Sets a variable, whatever it was. -/
def put (s : Session) (name : String) (v : Variable) : Session :=
  { s with ownVariables := putEntry s.ownVariables name v }

/-- The variables that processes get. -/
def exported (s : Session) (name : String) : Option String :=
  let v := s.lookup name
  if v.exported then v.value else none

/-- The variables that were set here, in the order of their names. -/
def sorted (s : Session) : List (String × Variable) := s.ownVariables.mergeSort fun a b => a.1 ≤ b.1

end Session

namespace Act

/-- The value of a variable, if it has one. -/
def value? (name : String) : Act (Option String) := do return (← session).value? name

/-- The value of a variable; that of a missing one is empty. -/
def value (name : String) : Act String := do return (← value? name).getD ""

/-- Complains about a name that is none. -/
def checkName (name : String) : Act Unit := do
  if !Name.isName name.toList then raise (name ++ ": bad variable name")

/-- Changes a variable that may be changed. -/
def setVariable (name : String) (f : Variable → Variable) : Act Unit := do
  let v := (← session).lookup name
  if v.fixed then raise (name ++ ": is read only")
  change fun s => s.put name (f v)
  if name = "PATH" then change fun s => { s with known := [] }
  if name = "OPTIND" then
    change fun s =>
      { s with optionIndex := (((s.value? name).getD "").toNat?).getD 1, lettersTaken := none }

/-- Sets a variable. -/
def assign (name value : String) : Act Unit := do
  checkName name
  let exports ← isOn 'a'
  setVariable name fun v => { v with value := some value, exported := v.exported || exports }

/-- Sets a variable that processes get. -/
def assignExported (name value : String) : Act Unit := do
  checkName name
  setVariable name fun v => { v with value := some value, exported := true }

/-- Unsets a variable. -/
def unassign (name : String) : Act Unit := do
  checkName name
  setVariable name fun _ => {}

/-- Marks a variable. -/
def markVariable (name : String) (f : Variable → Variable) : Act Unit := do
  checkName name
  change fun s => s.put name (f (s.lookup name))

/-- The text in front of the first equals sign, and the one behind it if there is one. -/
def splitAssignment (s : String) : String × Option String :=
  let cs := s.toList
  let name := cs.takeWhile (· ≠ '=')
  match cs.drop name.length with
  | _ :: value => (String.ofList name, some (String.ofList value))
  | [] => (String.ofList name, none)

/-! ### Hidden variables -/

/-- The name under which the settings are hidden. -/
def settingsName : String := "-"

/-- Runs a step; the variables that are hidden in it have their old values behind it. -/
def withHidden {α : Type} (step : Act α) : Act α := do
  change fun s => { s with hidden := [] :: s.hidden }
  thenAlways step (change fun s =>
    match s.hidden with
    | [] => s
    | old :: outer =>
      let s := { s with hidden := outer }
      old.foldl (fun s (name, v) =>
        match v with
        | some v =>
          if name = settingsName then { s with settings := (v.value.getD "").toList }
          else { s with ownVariables := putEntry s.ownVariables name v }
        | none => { s with ownVariables := dropEntry s.ownVariables name }) s)

/-- Notes what is to be had again at the end of the function. -/
def note (name : String) (v : Session → Option Variable) : Act Unit :=
  change fun s => match s.hidden with
    | [] => s
    | old :: outer =>
      if (old.lookup name).isSome then s else { s with hidden := ((name, v s) :: old) :: outer }

/-- Hides a variable until the end of the function; it keeps its value at first. -/
def hide (name : String) : Act Unit := note name fun s => s.ownVariables.lookup name

/-- Hides the settings until the end of the function; they stay what they are at first. -/
def hideSettings : Act Unit := note settingsName fun s => some { value := String.ofList s.settings }

end Act

end Stepflow.Shell
