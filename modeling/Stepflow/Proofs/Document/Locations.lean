import Stepflow.Proofs.Expression.Cutting
import Stepflow.Proofs.Validation.Written
import Stepflow.Proofs.Workflow.Places

/-!
# Locations in a document

A location is written as a text, with points in front of fields and places in brackets. It can be read back
in one way only, if the names of its fields have neither points nor brackets (`Location.Plain.eq_of_text`),
as those of a workflow have none. So a text leads into a document where the path leads that it writes
(`Value.LeadsTo`).

The places of the steps of a workflow are such paths, and they lead to the objects of the steps in the
document of the workflow (`Workflow.Stands.follow`).
-/

namespace Stepflow

/-! ## The texts of locations -/

namespace Segment

/-- Whether a character may stand in the name of a field, where it is written in a location. -/
def isPlainChar (c : Char) : Bool := c ≠ '.' && c ≠ '['

/-- **A plain segment** is a place in a list, or a field whose name has neither points nor brackets. -/
def Plain : Segment → Prop
  | .field name => name ≠ "" ∧ ∀ c ∈ name.toList, isPlainChar c = true
  | .index _ => True

end Segment

namespace Location

variable {a b : Location}

/-- **A plain location** begins with a field and has only plain segments. -/
structure Plain (l : Location) : Prop where
  /-- It begins with a field. -/
  head : ∃ name rest, l = .field name :: rest
  /-- Its segments are plain. -/
  segments : ∀ s ∈ l, s.Plain

theorem Plain.append (ha : a.Plain) (hb : ∀ s ∈ b, s.Plain) : Plain (a ++ b) where
  head := by
    obtain ⟨name, rest, rfl⟩ := ha.head
    exact ⟨name, rest ++ b, rfl⟩
  segments := fun s hs => (List.mem_append.1 hs).elim (ha.segments s) (hb s)

theorem toList_tail_field (name : String) (rest : Location) :
    (text.tail (.field name :: rest)).toList = '.' :: (name.toList ++ (text.tail rest).toList) := by
  rw [text.tail, String.toList_append, String.toList_append]
  rfl

theorem toList_tail_index (place : Nat) (rest : Location) : (text.tail (.index place :: rest)).toList =
    '[' :: (Nat.toDigits 10 place ++ ']' :: (text.tail rest).toList) := by
  rw [text.tail, String.toList_append, String.toList_append, String.toList_append, List.append_assoc]
  have hdigits : (toString place).toList = Nat.toDigits 10 place := Nat.toList_repr
  rw [hdigits, List.append_assoc]
  rfl

/-- What follows a name begins with a point or a bracket. -/
theorem head_tail (rest : Location) : ∀ c ∈ (text.tail rest).toList.head?, Segment.isPlainChar c = false := by
  intro c hc
  cases rest with
  | nil => cases hc
  | cons s rest =>
    cases s with
    | field name =>
      rw [toList_tail_field] at hc
      cases hc
      rfl
    | index place =>
      rw [toList_tail_index] at hc
      cases hc
      rfl

theorem eq_of_tail (ha : ∀ s ∈ a, s.Plain) (hb : ∀ s ∈ b, s.Plain)
    (h : (text.tail a).toList = (text.tail b).toList) : a = b := by
  induction a generalizing b with
  | nil =>
    cases b with
    | nil => rfl
    | cons t b =>
      cases t with
      | field => rw [toList_tail_field] at h; contradiction
      | index => rw [toList_tail_index] at h; contradiction
  | cons s a ih =>
    have ha' := List.forall_mem_cons.1 ha
    cases b with
    | nil =>
      cases s with
      | field => rw [toList_tail_field] at h; contradiction
      | index => rw [toList_tail_index] at h; contradiction
    | cons t b =>
      have hb' := List.forall_mem_cons.1 hb
      cases s with
      | field name =>
        cases t with
        | field other =>
          rw [toList_tail_field, toList_tail_field] at h
          obtain ⟨hname, hrest⟩ := Text.eq_of_append_of_stop ha'.1.2 hb'.1.2 (head_tail a) (head_tail b)
            (List.cons.inj h).2
          rw [String.toList_injective hname, ih ha'.2 hb'.2 hrest]
        | index =>
          rw [toList_tail_field, toList_tail_index] at h
          exact absurd (List.cons.inj h).1 (by decide)
      | index place =>
        cases t with
        | field =>
          rw [toList_tail_field, toList_tail_index] at h
          exact absurd (List.cons.inj h).1 (by decide)
        | index other =>
          rw [toList_tail_index, toList_tail_index] at h
          have hdigit (n : Nat) : ∀ c ∈ Nat.toDigits 10 n, Text.isDigit c = true := fun c =>
            Text.isDigit_of_mem_toDigits
          have hstop (cs : List Char) : ∀ c ∈ (']' :: cs).head?, Text.isDigit c = false := by
            rintro c ⟨⟩
            rfl
          obtain ⟨hplace, hrest⟩ := Text.eq_of_append_of_stop (hdigit _) (hdigit _) (hstop _) (hstop _)
            (List.cons.inj h).2
          rw [Text.eq_of_toDigits hplace, ih ha'.2 hb'.2 (List.cons.inj hrest).2]

/-- **The text of a plain location** is the text of no other. -/
theorem Plain.eq_of_text (ha : a.Plain) (hb : b.Plain) (h : a.text = b.text) : a = b := by
  obtain ⟨name, as, rfl⟩ := ha.head
  obtain ⟨other, bs, rfl⟩ := hb.head
  have ha' := List.forall_mem_cons.1 ha.segments
  have hb' := List.forall_mem_cons.1 hb.segments
  rw [text, text, String.ext_iff, String.toList_append, String.toList_append] at h
  obtain ⟨hname, hrest⟩ := Text.eq_of_append_of_stop ha'.1.2 hb'.1.2 (head_tail as) (head_tail bs) h
  rw [String.toList_injective hname, eq_of_tail ha'.2 hb'.2 hrest]

end Location

/-! ## Where paths lead -/

namespace Value

variable {u v : Value} {l r : List Segment}

theorem follow?_append : v.follow? (l ++ r) = (v.follow? l).bind (follow? r) := by
  induction l generalizing v with
  | nil => rfl
  | cons s l ih =>
    rw [List.cons_append, follow?, follow?, Option.bind_assoc]
    exact Option.bind_congr fun u _ => ih

/-- **A text leads to a value** inside a document: it writes a path, and the path leads there. -/
def LeadsTo (document : Value) (text : String) (v : Value) : Prop :=
  (∃ l : Location, l.Plain ∧ l.text = text) ∧
    ∀ l : Location, l.Plain → l.text = text → document.follow? l = some v

theorem leadsTo_of_follow {loc : Location} (hl : loc.Plain) (h : u.follow? loc = some v) :
    u.LeadsTo loc.text v :=
  ⟨⟨loc, hl, rfl⟩, fun _ hother htext => (hother.eq_of_text hl htext) ▸ h⟩

mutual

/-- The value with null in the place of every number that is not finite. -/
def finite : Value → Value
  | .arr vs => .arr (finiteAll vs)
  | .obj fs => .obj (finiteFields fs)
  | .float x => ofFloat x
  | .null => .null
  | .bool b => .bool b
  | .int n => .int n
  | .str s => .str s

/-- The members of a list, with null in the place of every number that is not finite. -/
def finiteAll : List Value → List Value
  | [] => []
  | v :: rest => finite v :: finiteAll rest

/-- Named values, with null in the place of every number that is not finite. -/
def finiteFields : List (String × Value) → List (String × Value)
  | [] => []
  | (k, v) :: rest => (k, finite v) :: finiteFields rest

end

theorem getElem?_finiteAll (vs : List Value) (n : Nat) : (finiteAll vs)[n]? = vs[n]?.map finite := by
  induction vs generalizing n with
  | nil => rw [finiteAll]; rfl
  | cons v rest ih =>
    rw [finiteAll]
    cases n with
    | zero => rfl
    | succ n => exact ih n

theorem get?_finiteFields (fs : List (String × Value)) (name : String) :
    Table.get? (finiteFields fs) name = (Table.get? fs name).map finite := by
  induction fs with
  | nil => rw [finiteFields]; rfl
  | cons e rest ih =>
    obtain ⟨k, v⟩ := e
    rw [finiteFields, Table.get?, Table.get?, ih]
    split <;> rfl

/-- Numbers that are not finite stand on no way. -/
theorem follow?_finite (h : v.follow? l = some u) : v.finite.follow? l = some u.finite := by
  induction l generalizing v with
  | nil => exact congrArg (some ∘ finite) (Option.some.inj h)
  | cons s l ih =>
    obtain ⟨x, hx, h⟩ := Option.bind_eq_some_iff.1 h
    refine Option.bind_eq_some_iff.2 ⟨x.finite, ?_, ih h⟩
    cases s with
    | field name =>
      cases v with
      | obj fs =>
        rw [finite, Segment.enter?, get?_finiteFields]
        exact congrArg (Option.map finite) hx
      | _ => contradiction
    | index n =>
      cases v with
      | arr vs =>
        rw [finite, Segment.enter?, getElem?_finiteAll]
        exact congrArg (Option.map finite) hx
      | _ => contradiction

/-- What stands under a name is found once the fields are in order. -/
theorem enter?_inOrder {fs : List (String × Value)} (h : (fs.map Prod.fst).Nodup) (name : String) :
    (Segment.field name).enter? (Value.obj fs).inOrder = (fs.lookup name).map inOrder := by
  rw [inOrder]
  exact get?_inOrderFields h name

/-- So is what stands at a place of a list under a name. -/
theorem follow?_member {fs : List (String × Value)} (h : (fs.map Prod.fst).Nodup) {name : String}
    {vs : List Value} (hvs : fs.lookup name = some (.arr vs)) {n : Nat} (hv : vs[n]? = some v) :
    (Value.obj fs).inOrder.follow? [.field name, .index n] = some v.inOrder := by
  rw [follow?, enter?_inOrder h, hvs]
  simp [follow?, Segment.enter?, inOrder, inOrderAll_eq, hv]

/-- And what stands under it alone. -/
theorem follow?_field {fs : List (String × Value)} (h : (fs.map Prod.fst).Nodup) {name : String}
    (hv : fs.lookup name = some v) : (Value.obj fs).inOrder.follow? [.field name] = some v.inOrder := by
  rw [follow?, enter?_inOrder h, hv]
  rfl

end Value

/-! ## The steps in the document of a workflow -/

variable {w : Workflow} {s i : Step} {loc l : Location}

namespace Step

/-- What the fields of a kind of step are is found under their names. -/
theorem lookup_fields_kind {kind : StepKind Step} {name : String} {v : Value} (hk : s.kind = kind)
    (hname : name ∈ Validation.payloadFields (some kind.type)) (hv : (payload kind).lookup name = some v) :
    s.fields.lookup name = some v := by
  rw [s.lookup_fields_of_payload (hk ▸ hname), hk, hv]

/-- **The object of a step inside a step** stands at the end of the way to it. -/
theorem Child.follow (h : s.Child l i) : s.toValue.inOrder.follow? l = some i.toValue.inOrder := by
  rw [toValue_eq s]
  cases h with
  | onFailure h =>
    refine Value.follow?_field s.fields_nodup (lookup_fields_kind h (by simp [Validation.payloadFields,
      StepKind.type]) ?_)
    simp [payload, optional]
  | @option options n o h ho =>
    have hoptions : s.fields.lookup "options" = some (.arr (optionValues options)) :=
      lookup_fields_kind h (by simp [Validation.payloadFields, StepKind.type]) (by simp [payload])
    have hn : (optionValues options)[n]? =
        some (.obj [("when", .str o.condition.raw), ("step", o.step.toValue)]) := by
      rw [optionValues_eq, List.getElem?_map, ho]
      rfl
    have hway : ([.field "options", .index n, .field "step"] : Location) =
        [.field "options", .index n] ++ [.field "step"] := rfl
    rw [hway, Value.follow?_append, Value.follow?_member s.fields_nodup hoptions hn]
    exact Value.follow?_field (by simp) (by simp)
  | @member members n i h hi =>
    have hmembers : s.fields.lookup "steps" = some (.arr (stepValues members)) :=
      lookup_fields_kind h (by simp [Validation.payloadFields, StepKind.type]) (by simp [payload])
    refine Value.follow?_member s.fields_nodup hmembers ?_
    rw [stepValues_eq, List.getElem?_map, hi]
    rfl
  | onError h =>
    refine Value.follow?_field s.fields_nodup ?_
    rw [s.lookup_fields_of_decoration (by decide)]
    simp [decorations, List.lookup_append, h]

theorem Within.follow (h : s.Within l i) : s.toValue.inOrder.follow? l = some i.toValue.inOrder := by
  induction h with
  | here => rfl
  | inside hi _ ih =>
    rw [Value.follow?_append, hi.follow]
    exact ih

/-- The ways from a step go through plain fields. -/
theorem Child.plain (h : s.Child l i) : ∀ x ∈ l, x.Plain := by
  cases h <;> simp [Segment.Plain, Segment.isPlainChar]

theorem Within.plain (h : s.Within l i) : ∀ x ∈ l, x.Plain := by
  induction h with
  | here => nofun
  | inside hi _ ih => exact fun x hx => (List.mem_append.1 hx).elim (hi.plain x) (ih x)

end Step

namespace Workflow

/-- **The document of a workflow**: its fields are in the order of their names, and a number that is not
finite is null. -/
def document (w : Workflow) : Value := w.toValue.inOrder.finite

theorem fields_nodup (w : Workflow) : (w.fields.map Prod.fst).Nodup := w.fields_among.nodup (by decide)

/-- **The object of a step** stands in the document where the step stands in the workflow. -/
theorem Stands.follow (h : w.Stands loc s) : w.toValue.inOrder.follow? loc = some s.toValue.inOrder := by
  obtain @⟨n, t, l, s, ht, hs⟩ := h
  have hsteps : w.fields.lookup "steps" = some (.arr (Step.stepValues w.steps)) := by
    simp [fields, List.lookup_append]
  have hn : (Step.stepValues w.steps)[n]? = some t.toValue := by
    rw [Step.stepValues_eq, List.getElem?_map, ht]
    rfl
  have hway : (.field "steps" :: .index n :: l : Location) = [.field "steps", .index n] ++ l := rfl
  rw [hway, Value.follow?_append, toValue_eq, Value.follow?_member w.fields_nodup hsteps hn]
  exact hs.follow

theorem Stands.plain (h : w.Stands loc s) : loc.Plain := by
  obtain @⟨n, t, l, s, ht, hs⟩ := h
  refine Location.Plain.append (a := [.field "steps", .index n]) ⟨⟨_, _, rfl⟩, ?_⟩ hs.plain
  simp [Segment.Plain, Segment.isPlainChar]

end Workflow

end Stepflow
