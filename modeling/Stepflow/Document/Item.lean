import Stepflow.Json.Reader
import Stepflow.Yaml.Scalar

/-!
# Items of a document

An item is what a document says at one place, whatever the document is written in. Most of reading a
document is asking items questions: a record for its fields, a scalar for a text or a number, a list
for its members.

Scalars come in two forms. A `datum` has one meaning, and a question of another kind has no answer.
A `written` scalar has not been given a meaning yet, and the question decides: asked for a text it
answers with its characters, whatever they look like. `Item.settle?` gives every scalar inside an
item its meaning, and fails if one of them has none.

Some parts of a document cannot be looked at: numbers beyond the finite ones, or what is nested too
deeply. They are `unreadable`, and disturb only the reader who asks them.
-/

namespace Stepflow

/-- What a document says at one place. -/
inductive Item where
  /-- A scalar with a meaning of its own. -/
  | datum (value : Scalar)
  /-- A scalar whose meaning depends on the question. -/
  | written (scalar : Yaml.Written)
  /-- A list. Where a record is expected, a `fieldwise` list gives its fields in their order. -/
  | list (fieldwise : Bool) (items : List Item)
  /-- Named items, in the order in which they were written. -/
  | mapping (entries : List (Item × Item))
  /-- A list or a mapping with a tag of the document's own. -/
  | tagged (item : Item)
  /-- What cannot be looked at. -/
  | unreadable

namespace Item

/-! ### The items of JSON text and of values -/

mutual

/-- The item of what was read from JSON text. Below `room` levels nothing can be looked at. -/
def ofJson (room : Nat) : Json → Item
  | .null => .datum .null
  | .bool b => .datum (.bool b)
  | .number (some (.int n)) => .datum (.int n)
  | .number (some (.float x)) => .datum (.float x)
  | .number _ => .unreadable
  | .text (some s) => .datum (.text s)
  | .text none => .unreadable
  | .array items =>
    match room with
    | 0 => .unreadable
    | room + 1 => .list true (ofJsonItems room items)
  | .object fields =>
    match room with
    | 0 => .unreadable
    | room + 1 => .mapping (ofJsonFields room fields)

/-- The items of the members of a list. -/
def ofJsonItems (room : Nat) : List Json → List Item
  | [] => []
  | j :: rest => ofJson room j :: ofJsonItems room rest

/-- The items of the fields of an object. -/
def ofJsonFields (room : Nat) : List (Option String × Json) → List (Item × Item)
  | [] => []
  | (name, j) :: rest =>
    let key : Item := match name with
      | some s => .datum (.text s)
      | none => .unreadable
    (key, ofJson room j) :: ofJsonFields room rest

end

mutual

/-- The item of a value. -/
def ofValue : Value → Item
  | .null => .datum .null
  | .bool b => .datum (.bool b)
  | .int n => .datum (.int n)
  | .float x => .datum (.float x)
  | .str s => .datum (.text s)
  | .arr items => .list true (ofValues items)
  | .obj fields => .mapping (ofFields fields)

/-- The items of the members of a list. -/
def ofValues : List Value → List Item
  | [] => []
  | v :: rest => ofValue v :: ofValues rest

/-- The items of named values. -/
def ofFields : List (String × Value) → List (Item × Item)
  | [] => []
  | (k, v) :: rest => (.datum (.text k), ofValue v) :: ofFields rest

end

/-! ### Questions -/

/-- The meaning of a scalar. -/
def scalar? : Item → Option Scalar
  | .datum s => some s
  | .written w => w.meaning?
  | _ => none

/-- The text of a scalar. -/
def text? : Item → Option String
  | .datum (.text s) => some s
  | .written w => some w.text
  | _ => none

/-- A truth value. -/
def bool? : Item → Option Bool
  | .datum (.bool b) => some b
  | .written w => w.bool?
  | _ => none

/-- A whole number from zero up to a bound, which it does not reach. -/
def nat? (bound : Nat) : Item → Option Nat
  | .datum (.int n) => if 0 ≤ n ∧ n < bound then some n.toNat else none
  | .datum .negativeZero => if 0 < bound then some 0 else none
  | .written w => w.nat?.filter (· < bound)
  | _ => none

/-- The floating-point number nearest to a whole number. -/
def floatOfInt (n : Int) : Float :=
  if 0 ≤ n then Float.ofNat n.toNat else -(Float.ofNat (-n).toNat)

/-- A number. -/
def float? : Item → Option Float
  | .datum (.int n) => some (floatOfInt n)
  | .datum .negativeZero => some 0.0
  | .datum (.float x) => some x
  | .written w => w.float?
  | _ => none

/-- What a reader finds, or nothing where the document says null. -/
def optional? {α : Type} (read : Item → Option α) : Item → Option (Option α)
  | .datum .null => some none
  | .written w =>
    match w.isAbsent? with
    | none => none
    | some true => some none
    | some false => (read (.written w)).map some
  | i => (read i).map some

/-- What a reader finds in every member of a list. -/
def list? {α : Type} (read : Item → Option α) : Item → Option (List α)
  | .list _ items => items.mapM read
  | .tagged (.list _ items) => items.mapM read
  | .written w => if w.isEmptyCollection then some [] else none
  | _ => none

/-- The entries of a mapping. -/
def entries? : Item → Option (List (Item × Item))
  | .mapping entries => some entries
  | .tagged (.mapping entries) => some entries
  | .written w => if w.isEmptyCollection then some [] else none
  | _ => none

/-- What a reader finds under every name; of two entries of one name the later one stays. -/
def table? {α : Type} (read : Item → Option α) (i : Item) : Option (Table α) := do
  let entries ← i.entries?
  let pairs ← entries.mapM fun (k, v) => do
    let name ← k.text?
    let found ← read v
    some (name, found)
  some (Table.ofList pairs)

/-- The field that a key names, of the given ones: by its name, or by its number. `none` if the item
cannot be a key; `some none` if it names no field. -/
def fieldName? (fields : List String) : Item → Option (Option String)
  | .datum (.int n) => if 0 ≤ n then some fields[n.toNat]? else none
  | k => k.text?.map fun s => if fields.contains s then some s else none

/-- Collects the fields of a record; a field may be given once. -/
def collectFields (fields : List String) : List (Item × Item) → Option (List (String × Item))
  | [] => some []
  | (k, v) :: rest => do
    let name ← fieldName? fields k
    let found ← collectFields fields rest
    match name with
    | none => some found
    | some name => if (found.lookup name).isSome then none else some ((name, v) :: found)

/-- The fields of a record, of the given ones. Other names are passed over. -/
def record? (fields : List String) : Item → Option (List (String × Item))
  | .list true items => if items.length ≤ fields.length then some (fields.zip items) else none
  | i => i.entries?.bind (collectFields fields)

/-- One of a number of words; it may also be given as a mapping of the word to null, or as a tag of
an empty scalar. -/
def choice? {α : Type} (ofWord? : String → Option α) : Item → Option α
  | .datum (.text s) => ofWord? s
  | .mapping [(k, v)] =>
    match k, v with
    | .datum (.text s), .datum .null => ofWord? s
    | _, _ => none
  | .written w =>
    if Yaml.isLocalTag w.tag then
      if (w.text = "" || Yaml.isNullWord w.text) && w.style = .plain then
        (w.tag.bind Yaml.Tag.localName?).bind ofWord?
      else none
    else ofWord? w.text
  | _ => none

/-! ### Free values -/

/-- The value of a scalar. -/
def scalarValue : Scalar → Value
  | .null => .null
  | .bool b => .bool b
  | .int n => .int n
  | .negativeZero => .int 0
  | .float x => Value.ofFloat x
  | .text s => .str s

mutual

/-- The value that an item writes. -/
def value? : Item → Option Value
  | .datum s => some (scalarValue s)
  | .written w => w.meaning?.map scalarValue
  | .list _ items => (values? items).map .arr
  | .mapping entries => (fields? entries).map fun fs => .obj (Table.ofList fs)
  | .tagged _ => none
  | .unreadable => none

/-- The values that items write. -/
def values? : List Item → Option (List Value)
  | [] => some []
  | i :: rest => do
    let v ← value? i
    let vs ← values? rest
    some (v :: vs)

/-- The named values that entries write. -/
def fields? : List (Item × Item) → Option (List (String × Value))
  | [] => some []
  | (k, i) :: rest => do
    let name ← k.text?
    let v ← value? i
    let fs ← fields? rest
    some ((name, v) :: fs)

end

/-- The object that an item writes. -/
def object? (i : Item) : Option Fields :=
  match i with
  | .mapping entries => (fields? entries).map Table.ofList
  | _ => none

mutual

/-- The item with a meaning for every scalar inside it. -/
def settle? : Item → Option Item
  | .datum s => some (.datum s)
  | .written w => w.meaning?.map .datum
  | .list _ items => (settleItems? items).map (.list true)
  | .mapping entries => (settleEntries? entries).map .mapping
  | .tagged _ => none
  | .unreadable => none

/-- Settles the members of a list. -/
def settleItems? : List Item → Option (List Item)
  | [] => some []
  | i :: rest => do
    let j ← settle? i
    let js ← settleItems? rest
    some (j :: js)

/-- Settles the entries of a mapping. -/
def settleEntries? : List (Item × Item) → Option (List (Item × Item))
  | [] => some []
  | (k, v) :: rest => do
    let k ← settle? k
    let v ← settle? v
    let es ← settleEntries? rest
    some ((k, v) :: es)

end

end Item

end Stepflow
