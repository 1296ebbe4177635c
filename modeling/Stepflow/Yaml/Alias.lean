import Stepflow.Document.Item
import Stepflow.Yaml.Node

/-!
# Following aliases

Every node of a document has a position, its place in the order in which nodes begin. An anchor is
given a number when its node begins, the count of different anchors before it, and an alias stands
for the node whose anchor was last given the number of the alias's anchor. A name that is anchored a
second time thereby shares its number with the next new name.

`Yaml.toItem?` turns a document into an item, in which aliases are replaced by what they stand for.
A node may contain itself by way of an alias, and few nodes may stand for a great many. So items are
nested at most 128 deep, and at most a hundred aliases are followed for each event of the document,
that is for each scalar, each alias, and each of the two ends of a collection. What lies beyond is
unreadable. A `Reach` says which parts of a document a reader will look at: the others are not
followed and do not count.
-/

namespace Stepflow.Yaml

/-- The parts of a document that a reader looks at. -/
inductive Reach where
  /-- Everything. -/
  | all
  /-- Nothing. -/
  | nothing
  /-- Of a mapping, the entries of these names, each with a reach of its own. -/
  | only (fields : List (String × Reach))
  /-- Of a mapping, all entries, the value of each with this reach. -/
  | each (reach : Reach)

/-- A node with its position, in which aliases hold the number of their anchor. -/
inductive Linked where
  /-- A scalar. -/
  | scalar (w : Written)
  /-- An alias of the anchor with this number. -/
  | alias (number : Nat)
  /-- A sequence and its tag. -/
  | seq (tag : Option Tag) (items : List Linked)
  /-- A mapping and its tag. -/
  | map (tag : Option Tag) (entries : List (Linked × Linked))

/-- What is known after a part of a document has been linked. -/
structure Links where
  /-- The numbers of the anchors. -/
  numbers : Table Nat := []
  /-- The position at which each number was last given, the latest first. -/
  places : List (Nat × Nat) := []
  /-- The nodes that carry anchors, by position. -/
  nodes : List (Nat × Linked) := []
  /-- The count of nodes begun. -/
  begun : Nat := 0
  /-- The count of events. -/
  events : Nat := 0

namespace Links

/-- Begins a node, which may carry an anchor. Gives its position. -/
def enter (l : Links) (anchor : Option String) : Nat × Links :=
  let here := l.begun
  let l := { l with begun := l.begun + 1, events := l.events + 1 }
  match anchor with
  | none => (here, l)
  | some a =>
    let number := l.numbers.length
    (here, { l with numbers := l.numbers.insert a number, places := (number, here) :: l.places })

/-- Ends a node, which is remembered if it carries an anchor. -/
def leave (l : Links) (anchor : Option String) (here : Nat) (n : Linked) : Links :=
  if anchor.isSome then { l with nodes := (here, n) :: l.nodes } else l

/-- The node that an alias of a number stands for. -/
def target? (l : Links) (number : Nat) : Option Linked :=
  (l.places.lookup number).bind fun here => l.nodes.lookup here

end Links

mutual

/-- Links a node; an alias needs an anchor before it. -/
def link? : Node → Links → Option (Linked × Links)
  | .scalar props text style, l =>
    let (here, l) := l.enter props.anchor
    let n := Linked.scalar ⟨text, style, props.tag⟩
    some (n, l.leave props.anchor here n)
  | .alias name, l =>
    (l.numbers.get? name).map fun number => (.alias number, (l.enter none).2)
  | .seq props items, l => do
    let (here, l) := l.enter props.anchor
    let (items, l) ← linkItems? items l
    let n := Linked.seq props.tag items
    some (n, ({ l with events := l.events + 1 } : Links).leave props.anchor here n)
  | .map props entries, l => do
    let (here, l) := l.enter props.anchor
    let (entries, l) ← linkEntries? entries l
    let n := Linked.map props.tag entries
    some (n, ({ l with events := l.events + 1 } : Links).leave props.anchor here n)

/-- Links the members of a sequence. -/
def linkItems? : List Node → Links → Option (List Linked × Links)
  | [], l => some ([], l)
  | n :: rest, l => do
    let (n, l) ← link? n l
    let (ns, l) ← linkItems? rest l
    some (n :: ns, l)

/-- Links the entries of a mapping. -/
def linkEntries? : List (Node × Node) → Links → Option (List (Linked × Linked) × Links)
  | [], l => some ([], l)
  | (k, v) :: rest, l => do
    let (k, l) ← link? k l
    let (v, l) ← link? v l
    let (es, l) ← linkEntries? rest l
    some ((k, v) :: es, l)

end

/-- How deeply items may be nested. -/
def maxDepth : Nat := 128

/-- How many aliases are followed for each event of a document. -/
def followsPerEvent : Nat := 100

/-- The reach of the value of an entry. -/
def Reach.into (r : Reach) (key : Item) : Reach :=
  match r with
  | .all => .all
  | .nothing => .nothing
  | .each r => r
  | .only fields =>
    match key.text? with
    | some name => (fields.lookup name).getD .nothing
    | none => .all

/-- The node that a node stands for; counts the aliases followed. -/
def follow (l : Links) (n : Linked) : StateM Nat (Option Linked) := do
  match n with
  | .alias number =>
    let followed ← get
    if l.events * followsPerEvent ≤ followed then return none
    set (followed + 1)
    return l.target? number
  | n => return some n

/-- A collection, marked if its tag is one of the document's own. -/
def mark (tag : Option Tag) (i : Item) : Item := if isLocalTag tag then .tagged i else i

/-- The item of a node. -/
def expand (l : Links) : (room : Nat) → Reach → Linked → StateM Nat Item
  | _, .nothing, _ => return .unreadable
  | room, reach, n => do
    match ← follow l n with
    | some (.scalar w) => return .written w
    | some (.seq tag items) =>
      match room with
      | 0 => return .unreadable
      | room + 1 => return mark tag (.list false (← items.mapM (expand l room .all)))
    | some (.map tag entries) =>
      match room with
      | 0 => return .unreadable
      | room + 1 =>
        let entries ← entries.mapM fun (k, v) => do
          let key ← expand l room .all k
          return (key, ← expand l room (reach.into key) v)
        return mark tag (.mapping entries)
    | some (.alias _) | none => return .unreadable

/-- The item of a document; a text without any document is an empty scalar. -/
def toItem? (reach : Reach) (text : List Char) : Option Item := do
  match ← Node.ofText? text with
  | none => some (.written ⟨"", .plain, none⟩)
  | some root =>
    let (root, l) ← link? root {}
    some ((expand l maxDepth reach root).run 0).1

end Stepflow.Yaml
