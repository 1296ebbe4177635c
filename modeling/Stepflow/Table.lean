/-!
# Tables

A table is a list of named entries in strictly increasing order of their names. It is the shape of
every mapping in this library: the fields of an object, the inputs a workflow declares, the
components a registry holds. The order is the order of code points, so walking a table is walking it
in the order in which it is printed.

`insert` keeps the order and puts the new entry in the place of an old one of the same name
(`get?_insert_self`, `get?_insert_of_ne`); `ofList` inserts from left to right, so that the last
entry of a name wins.
-/

namespace Stepflow

/-- Named entries, kept in strictly increasing order of their names. -/
abbrev Table (β : Type) := List (String × β)

namespace Table

variable {β γ : Type}

/-- The entry of a name. -/
def get? : Table β → String → Option β
  | [], _ => none
  | (k, v) :: rest, name => if k = name then some v else get? rest name

/-- Whether a name has an entry. -/
def contains (t : Table β) (name : String) : Bool := (t.get? name).isSome

/-- Puts an entry in its place, in the place of an earlier entry of the same name if there is one. -/
def insert : Table β → String → β → Table β
  | [], name, v => [(name, v)]
  | (k, w) :: rest, name, v =>
    if k = name then (name, v) :: rest
    else if name < k then (name, v) :: (k, w) :: rest
    else (k, w) :: insert rest name v

/-- Takes the entry of a name out. -/
def erase (t : Table β) (name : String) : Table β := t.filter fun e => e.1 ≠ name

/-- Inserts the entries of the second table into the first. -/
def merge (t u : Table β) : Table β := u.foldl (fun acc e => acc.insert e.1 e.2) t

/-- The table of a list of entries; of two entries of one name the later one stays. -/
def ofList (entries : List (String × β)) : Table β := merge [] entries

/-- The names, in order. -/
def names (t : Table β) : List String := t.map Prod.fst

/-- Changes every entry and keeps its name. -/
def mapValues (f : β → γ) (t : Table β) : Table γ := t.map fun e => (e.1, f e.2)

/-- The order of the names, which `insert` keeps. -/
def Sorted (t : Table β) : Prop := t.Pairwise fun a b => a.1 < b.1

/-- Nothing is in an empty table. -/
@[simp] theorem get?_nil (name : String) : get? ([] : Table β) name = none := rfl

/-- What is found is in the table. -/
theorem mem_of_get? {t : Table β} {name : String} {v : β} (h : t.get? name = some v) : (name, v) ∈ t := by
  induction t with
  | nil => contradiction
  | cons e rest ih =>
    obtain ⟨k, w⟩ := e
    rw [get?] at h
    split at h
    · rename_i hk
      subst hk
      exact Option.some.inj h ▸ List.mem_cons_self
    · exact List.mem_cons_of_mem _ (ih h)

/-- What was put in under a name is found under it. -/
@[simp] theorem get?_insert_self (t : Table β) (name : String) (v : β) :
    (t.insert name v).get? name = some v := by
  induction t with
  | nil => simp [insert, get?]
  | cons e rest ih =>
    obtain ⟨k, w⟩ := e
    by_cases h : k = name
    · simp [insert, h, get?]
    · by_cases h' : name < k
      · simp [insert, h, h', get?]
      · simp [insert, h, h', get?, ih]

/-- What is found under other names stays the same. -/
theorem get?_insert_of_ne (t : Table β) {name other : String} (v : β) (hne : name ≠ other) :
    (t.insert name v).get? other = t.get? other := by
  induction t with
  | nil => simp [insert, get?, hne]
  | cons e rest ih =>
    obtain ⟨k, w⟩ := e
    by_cases h : k = name
    · subst h; simp [insert, get?, hne]
    · by_cases h' : name < k
      · simp [insert, h, h', get?, hne]
      · simp [insert, h, h', get?, ih]

/-- What is found after something was put in. -/
theorem get?_insert (t : Table β) (name other : String) (v : β) :
    (t.insert name v).get? other = if name = other then some v else t.get? other := by
  split
  · next h => rw [← h, get?_insert_self]
  · next h => exact get?_insert_of_ne t v h

end Table

end Stepflow
