import Mathlib.Data.Option.Defs
import Stepflow.Proofs.Document.Order
import Stepflow.Workflow.Codec

/-!
# What a value becomes in a document

A text that was printed from a value and read again is an item, not the value: its scalars may be
waiting for a question, its lists come in two forms. `Item.Writes` says that an item is what became of
a value, and each question gets from such an item the answer that the value holds.
-/

namespace Stepflow

namespace Yaml

/-- What a plain text that means `m` says to the readers of a fixed kind. -/
def Spells (s : String) : Scalar → Prop
  | .null | .negativeZero => True
  | .bool b => readBool? s = some b
  | .int n => 0 ≤ n → readUnsigned? s.toList = some n.toNat
  | .float x => readFloat? s = some x
  | .text t => s = t

theorem intMeaning?_eq {n : Int} {m : Scalar} (h : intMeaning? n = some (some m)) : m = .int n := by
  rw [intMeaning?] at h
  split at h
  · exact (Option.some.inj (Option.some.inj h)).symm
  · split at h <;> simp at h

theorem readNegative?_le {cs : List Char} {n : Int} (h : readNegative? cs = some n) : n ≤ 0 := by
  unfold readNegative? at h
  split at h
  · dsimp only at h
    split at h
    · obtain rfl := Option.some.inj h
      omega
    · split at h
      · contradiction
      · obtain ⟨k, hk, rfl⟩ := Option.map_eq_some_iff.1 h
        obtain ⟨m, -, hm⟩ := Option.bind_eq_some_iff.1 hk
        obtain rfl := Option.some.inj hm
        exact Int.neg_nonpos_of_nonneg (Int.natCast_nonneg m)
  · contradiction

/-- A whole number that is not negative is read as such by whoever asks for one. -/
theorem wholeMeaning?_spells {s : String} {m : Scalar} (h : wholeMeaning? s.toList = some (some m)) :
    m ≠ .null ∧ Spells s m := by
  unfold wholeMeaning? at h
  split at h
  · next n hn =>
    obtain rfl := intMeaning?_eq h
    exact ⟨by simp, fun _ => by simpa using hn⟩
  · split at h
    · next n hn =>
      split at h
      · obtain rfl := Option.some.inj (Option.some.inj h)
        exact ⟨by simp, trivial⟩
      · next hne =>
        obtain rfl := intMeaning?_eq h
        have hle := readNegative?_le hn
        exact ⟨by simp, fun hge => absurd (Int.le_antisymm hle hge) hne⟩
    · contradiction

/-- **What a plain text means** is what it says to the readers of that kind, and it is null exactly if
it is empty or a word for null. -/
theorem plainMeaning?_spells {s : String} {m : Scalar} (h : plainMeaning? s = some m) :
    ((s = "" || isNullWord s) = true ↔ m = .null) ∧ Spells s m := by
  unfold plainMeaning? at h
  split at h
  · next hnull =>
    obtain rfl := Option.some.inj h
    exact ⟨by simpa using hnull, trivial⟩
  · next hnull =>
    refine (fun hm : m ≠ .null ∧ Spells s m => ⟨by simpa [hm.1] using hnull, hm.2⟩) ?_
    split at h
    · next b hb =>
      obtain rfl := Option.some.inj h
      exact ⟨by simp, hb⟩
    · split at h
      · next meaning hw => exact wholeMeaning?_spells (h ▸ hw)
      · split at h
        · obtain rfl := Option.some.inj h
          exact ⟨by simp, rfl⟩
        · split at h
          · next x hx =>
            obtain rfl := Option.some.inj h
            exact ⟨by simp, hx⟩
          · obtain rfl := Option.some.inj h
            exact ⟨by simp, rfl⟩

/-- What a scalar without a tag means: a plain one what its text means, any other its text. -/
theorem Written.meaning?_of_untagged {w : Written} {m : Scalar} (ht : w.tag = none)
    (h : w.meaning? = some m) :
    (w.style = .plain ∧ plainMeaning? w.text = some m) ∨ (w.style ≠ .plain ∧ m = .text w.text) := by
  simp only [Written.meaning?, ht, isLocalTag, Option.any_none, Option.all_none, Bool.false_eq_true,
    if_false, reduceCtorEq, Bool.true_and, decide_eq_true_eq] at h
  split at h
  · next hs => exact .inl ⟨hs, h⟩
  · next hs => exact .inr ⟨hs, (Option.some.inj h).symm⟩

end Yaml

namespace Item

/-- An item is a scalar that means `s`: one with this meaning, or one without a tag that is given it. -/
def Says (i : Item) (s : Scalar) : Prop :=
  i = .datum s ∨ ∃ w : Yaml.Written, i = .written w ∧ w.tag = none ∧ w.meaning? = some s

mutual

/-- **What became of a value in a document.** -/
def Writes (i : Item) : Value → Prop
  | .null => i.Says .null
  | .bool b => i.Says (.bool b)
  | .int n => i.Says (.int n)
  | .float x => i.Says (.float x)
  | .str s => i.Says (.text s)
  | .arr vs => ∃ fieldwise items, i = .list fieldwise items ∧ WritesAll items vs
  | .obj fs => ∃ entries, i = .mapping entries ∧ WritesFields entries fs

/-- What became of the members of a list. -/
def WritesAll (items : List Item) : List Value → Prop
  | [] => items = []
  | v :: vs => ∃ i rest, items = i :: rest ∧ Writes i v ∧ WritesAll rest vs

/-- What became of the fields of an object. -/
def WritesFields (entries : List (Item × Item)) : List (String × Value) → Prop
  | [] => entries = []
  | (name, v) :: fs =>
    ∃ k i rest, entries = (k, i) :: rest ∧ k.Says (.text name) ∧ Writes i v ∧ WritesFields rest fs

end

/-! ### Questions to scalars -/

section Says

variable {i : Item}

theorem says_datum (s : Scalar) : (datum s).Says s := .inl rfl

theorem Says.text? {s : String} (h : i.Says (.text s)) : i.text? = some s := by
  obtain rfl | ⟨w, rfl, ht, hm⟩ := h
  · rfl
  · obtain ⟨-, hs⟩ | ⟨-, hs⟩ := w.meaning?_of_untagged ht hm
    · exact congrArg some (Yaml.plainMeaning?_spells hs).2
    · exact congrArg some (Scalar.text.inj hs).symm

/-- A scalar with a meaning other than a text is plain, and its text spells it. -/
theorem spells_of_untagged {w : Yaml.Written} {m : Scalar} (ht : w.tag = none)
    (hm : w.meaning? = some m) (hne : ∀ s, m ≠ .text s) :
    w.style = .plain ∧ Yaml.Spells w.text m := by
  obtain ⟨hplain, hs⟩ | ⟨-, hs⟩ := w.meaning?_of_untagged ht hm
  · exact ⟨hplain, (Yaml.plainMeaning?_spells hs).2⟩
  · exact absurd hs (hne _)

theorem Says.bool? {b : Bool} (h : i.Says (.bool b)) : i.bool? = some b := by
  obtain rfl | ⟨w, rfl, ht, hm⟩ := h
  · rfl
  · obtain ⟨hplain, hs⟩ := spells_of_untagged ht hm (by simp)
    have hread : Yaml.readBool? w.text = some b := hs
    simp [Item.bool?, Yaml.Written.bool?, Yaml.Written.isOpen, hplain, hread]

theorem Says.nat? {n bound : Nat} (h : i.Says (.int n)) (hn : n < bound) : i.nat? bound = some n := by
  obtain rfl | ⟨w, rfl, ht, hm⟩ := h
  · simp [Item.nat?, hn]
  · obtain ⟨hplain, hs⟩ := spells_of_untagged ht hm (by simp)
    have hread : Yaml.readUnsigned? w.text.toList = some n := hs (Int.natCast_nonneg n)
    simp [Item.nat?, Yaml.Written.nat?, Yaml.Written.isOpen, hplain, hread, hn]

theorem Says.float? {x : Float} (h : i.Says (.float x)) : i.float? = some x := by
  obtain rfl | ⟨w, rfl, ht, hm⟩ := h
  · rfl
  · obtain ⟨hplain, hs⟩ := spells_of_untagged ht hm (by simp)
    have hread : Yaml.readFloat? w.text = some x := hs
    simp [Item.float?, Yaml.Written.float?, Yaml.Written.isOpen, hplain, hread]

theorem Says.settle? {s : Scalar} (h : i.Says s) : i.settle? = some (.datum s) := by
  obtain rfl | ⟨w, rfl, -, hm⟩ := h
  · rw [Item.settle?]
  · rw [Item.settle?, hm]
    rfl

theorem Says.value? {s : Scalar} (h : i.Says s) : i.value? = some (scalarValue s) := by
  obtain rfl | ⟨w, rfl, -, hm⟩ := h
  · rw [Item.value?]
  · rw [Item.value?, hm]
    rfl

/-- A scalar that is not null is not taken for a missing value. -/
theorem Says.optional? {α : Type} {s : Scalar} (h : i.Says s) (hne : s ≠ .null)
    (read : Item → Option α) : i.optional? read = (read i).map some := by
  obtain rfl | ⟨w, rfl, ht, hm⟩ := h
  · unfold Item.optional?
    split
    · next heq => exact absurd (Item.datum.inj heq) hne
    · contradiction
    · rfl
  · have habsent : w.isAbsent? = some false := by
      obtain ⟨hplain, hs⟩ | ⟨hplain, -⟩ := w.meaning?_of_untagged ht hm
      · have hnull := mt (Yaml.plainMeaning?_spells hs).1.1 hne
        simpa [Yaml.Written.isAbsent?, hplain, ht] using hnull
      · simp [Yaml.Written.isAbsent?, hplain]
    simp only [Item.optional?, habsent]

theorem Says.choice? {α : Type} {s : String} (h : i.Says (.text s)) (ofWord? : String → Option α) :
    i.choice? ofWord? = ofWord? s := by
  have htext := h.text?
  obtain rfl | ⟨w, rfl, ht, -⟩ := h
  · rfl
  · obtain rfl := Option.some.inj htext
    simp [Item.choice?, ht, Yaml.isLocalTag]

end Says

/-! ### Questions to what became of a value -/

mutual

/-- The item of a value is what became of it. -/
theorem writes_ofValue : (v : Value) → (ofValue v).Writes v
  | .null | .bool _ | .int _ | .float _ | .str _ => by
    rw [ofValue, Writes]
    exact says_datum _
  | .arr vs => by
    rw [ofValue, Writes]
    exact ⟨true, ofValues vs, rfl, writesAll_ofValues vs⟩
  | .obj fs => by
    rw [ofValue, Writes]
    exact ⟨ofFields fs, rfl, writesFields_ofFields fs⟩

theorem writesAll_ofValues : (vs : List Value) → WritesAll (ofValues vs) vs
  | [] => by rw [ofValues, WritesAll]
  | v :: rest => by
    rw [ofValues, WritesAll]
    exact ⟨_, _, rfl, writes_ofValue v, writesAll_ofValues rest⟩

theorem writesFields_ofFields : (fs : List (String × Value)) → WritesFields (ofFields fs) fs
  | [] => by rw [ofFields, WritesFields]
  | (k, v) :: rest => by
    rw [ofFields, WritesFields]
    exact ⟨_, _, _, rfl, says_datum _, writes_ofValue v, writesFields_ofFields rest⟩

end

mutual

/-- **Settling** what became of a value gives the item of the value. -/
theorem Writes.settle? : {v : Value} → {i : Item} → i.Writes v → i.settle? = some (ofValue v)
  | .null, _, h | .bool _, _, h | .int _, _, h | .float _, _, h | .str _, _, h => by
    rw [Writes] at h
    rw [h.settle?, ofValue]
  | .arr vs, _, h => by
    rw [Writes] at h
    obtain ⟨fieldwise, items, rfl, h⟩ := h
    rw [Item.settle?, h.settleItems?, ofValue]
    rfl
  | .obj fs, _, h => by
    rw [Writes] at h
    obtain ⟨entries, rfl, h⟩ := h
    rw [Item.settle?, h.settleEntries?, ofValue]
    rfl

theorem WritesAll.settleItems? : {vs : List Value} → {items : List Item} → WritesAll items vs →
    settleItems? items = some (ofValues vs)
  | [], _, h => by
    rw [WritesAll] at h
    rw [h, Item.settleItems?, ofValues]
  | v :: vs, _, h => by
    rw [WritesAll] at h
    obtain ⟨i, items, rfl, hi, h⟩ := h
    rw [Item.settleItems?, hi.settle?, h.settleItems?, ofValues]
    rfl

theorem WritesFields.settleEntries? : {fs : List (String × Value)} → {entries : List (Item × Item)} →
    WritesFields entries fs → settleEntries? entries = some (ofFields fs)
  | [], _, h => by
    rw [WritesFields] at h
    rw [h, Item.settleEntries?, ofFields]
  | (name, v) :: fs, _, h => by
    rw [WritesFields] at h
    obtain ⟨k, i, entries, rfl, hk, hi, h⟩ := h
    rw [Item.settleEntries?, hk.settle?, hi.settle?, h.settleEntries?, ofFields]
    rfl

end

mutual

/-- What became of a value is at least as high as the value is deep. -/
theorem Writes.depth_le_height : {v : Value} → {i : Item} → i.Writes v → v.depth ≤ i.height
  | .null, _, _ | .bool _, _, _ | .int _, _, _ | .float _, _, _ | .str _, _, _ => by
    simp [Value.depth]
  | .arr vs, _, h => by
    rw [Writes] at h
    obtain ⟨fieldwise, items, rfl, h⟩ := h
    rw [Value.depth, Item.height]
    exact Nat.succ_le_succ h.depth_le_height
  | .obj fs, _, h => by
    rw [Writes] at h
    obtain ⟨entries, rfl, h⟩ := h
    rw [Value.depth, Item.height]
    exact Nat.succ_le_succ h.depth_le_height

theorem WritesAll.depth_le_height : {vs : List Value} → {items : List Item} → WritesAll items vs →
    Value.depthList vs ≤ heightItems items
  | [], _, _ => by
    rw [Value.depthList]
    exact Nat.zero_le _
  | v :: vs, _, h => by
    rw [WritesAll] at h
    obtain ⟨i, items, rfl, hi, h⟩ := h
    rw [Value.depthList, heightItems]
    have hfirst := hi.depth_le_height
    have hrest := h.depth_le_height
    omega

theorem WritesFields.depth_le_height : {fs : List (String × Value)} →
    {entries : List (Item × Item)} → WritesFields entries fs →
    Value.depthFields fs ≤ heightEntries entries
  | [], _, _ => by
    rw [Value.depthFields]
    exact Nat.zero_le _
  | (name, v) :: fs, _, h => by
    rw [WritesFields] at h
    obtain ⟨k, i, entries, rfl, -, hi, h⟩ := h
    rw [Value.depthFields, heightEntries]
    have hfirst := hi.depth_le_height
    have hrest := h.depth_le_height
    omega

end

mutual

/-- **The value** that what became of a value writes: the same, with its fields in order. -/
theorem Writes.value? : {v : Value} → {i : Item} → i.Writes v → v.Throughout Value.Bounded →
    i.value? = some v.inOrder
  | .null, _, h, _ | .bool _, _, h, _ | .int _, _, h, _ | .str _, _, h, _ => by
    rw [Writes] at h
    simp [h.value?, scalarValue, Value.inOrder]
  | .float x, _, h, hb => by
    rw [Writes] at h
    rw [Value.Throughout] at hb
    have hfinite : x.isFinite = true := hb
    simp [h.value?, scalarValue, Value.inOrder, Value.ofFloat, hfinite]
  | .arr vs, _, h, hb => by
    rw [Writes] at h
    rw [Value.Throughout] at hb
    obtain ⟨fieldwise, items, rfl, h⟩ := h
    rw [Item.value?, h.values? hb.2, Value.inOrder]
    rfl
  | .obj fs, _, h, hb => by
    rw [Writes] at h
    rw [Value.Throughout] at hb
    obtain ⟨entries, rfl, h⟩ := h
    rw [Item.value?, h.fields? hb.2, Value.inOrder]
    rfl

theorem WritesAll.values? : {vs : List Value} → {items : List Item} → WritesAll items vs →
    Value.ThroughoutAll Value.Bounded vs → values? items = some (Value.inOrderAll vs)
  | [], _, h, _ => by
    rw [WritesAll] at h
    rw [h, Item.values?, Value.inOrderAll]
  | v :: vs, _, h, hb => by
    rw [WritesAll] at h
    rw [Value.ThroughoutAll] at hb
    obtain ⟨i, items, rfl, hi, h⟩ := h
    rw [Item.values?, hi.value? hb.1, h.values? hb.2, Value.inOrderAll]
    rfl

theorem WritesFields.fields? : {fs : List (String × Value)} → {entries : List (Item × Item)} →
    WritesFields entries fs → Value.ThroughoutFields Value.Bounded fs →
    fields? entries = some (Value.inOrderFields fs)
  | [], _, h, _ => by
    rw [WritesFields] at h
    rw [h, Item.fields?, Value.inOrderFields]
  | (name, v) :: fs, _, h, hb => by
    rw [WritesFields] at h
    rw [Value.ThroughoutFields] at hb
    obtain ⟨k, i, entries, rfl, hk, hi, h⟩ := h
    rw [Item.fields?, hk.text?, hi.value? hb.1, h.fields? hb.2, Value.inOrderFields]
    rfl

end

/-- **A value** as programs hold it is read back as it is. -/
theorem Writes.value?_of_proper {i : Item} {v : Value} (h : i.Writes v) (hv : v.Proper) :
    i.value? = some v := by
  rw [h.value? hv.bounded, Value.inOrder_of_ordered hv.ordered]

/-- So is an object. -/
theorem Writes.object? {i : Item} {fs : Fields} (h : i.Writes (.obj fs))
    (hv : (Value.obj fs).Proper) : i.object? = some fs := by
  obtain ⟨ho, hb⟩ := hv
  rw [Writes] at h
  rw [Value.Throughout] at hb ho
  obtain ⟨entries, rfl, h⟩ := h
  rw [Item.object?, h.fields? hb.2, Value.inOrderFields_of_ordered ho.2, Option.map_some,
    Table.ofList_of_sorted ho.1]

section Scalars

variable {i : Item}

theorem Writes.text? {s : String} (h : i.Writes (.str s)) : i.text? = some s := by
  rw [Writes] at h
  exact h.text?

theorem Writes.bool? {b : Bool} (h : i.Writes (.bool b)) : i.bool? = some b := by
  rw [Writes] at h
  exact h.bool?

theorem Writes.nat? {n bound : Nat} (h : i.Writes (.int n)) (hn : n < bound) :
    i.nat? bound = some n := by
  rw [Writes] at h
  exact h.nat? hn

theorem Writes.float? {x : Float} (h : i.Writes (.float x)) : i.float? = some x := by
  rw [Writes] at h
  exact h.float?

theorem Writes.choice? {α : Type} {s : String} (h : i.Writes (.str s))
    (ofWord? : String → Option α) : i.choice? ofWord? = ofWord? s := by
  rw [Writes] at h
  exact h.choice? ofWord?

/-- A reference that was read from a text is read back from the text it keeps. -/
theorem Writes.expression? {e : Expression} (h : i.Writes (.str e.raw))
    (he : Expression.parse e.raw = .ok e) : i.expression? = some e := by
  rw [Item.expression?, h.text?, Option.bind_some, he]
  rfl

end Scalars

theorem Writes.optional? {α : Type} {i : Item} {v : Value} (h : i.Writes v) (hne : v ≠ .null)
    (read : Item → Option α) : i.optional? read = (read i).map some := by
  cases v with
  | null => contradiction
  | bool _ | int _ | float _ | str _ =>
    rw [Writes] at h
    exact h.optional? (by simp) read
  | arr vs =>
    rw [Writes] at h
    obtain ⟨fieldwise, items, rfl, -⟩ := h
    rfl
  | obj fs =>
    rw [Writes] at h
    obtain ⟨entries, rfl, -⟩ := h
    rfl

section Members

variable {α : Type} {f : α → Value} {read : Item → Option α} {i : Item}

/-- Members that are read back one by one are read back as a list. -/
theorem list?_of_writes {members : List α} (h : i.Writes (.arr (members.map f)))
    (hread : ∀ a ∈ members, ∀ j, Writes j (f a) → read j = some a) : i.list? read = some members := by
  rw [Writes] at h
  obtain ⟨fieldwise, items, rfl, h⟩ := h
  rw [list?]
  induction members generalizing items with
  | nil =>
    rw [List.map_nil, WritesAll] at h
    rw [h]
    rfl
  | cons a members ih =>
    rw [List.map_cons, WritesAll] at h
    obtain ⟨j, rest, rfl, hj, h⟩ := h
    rw [List.mapM_cons, hread a List.mem_cons_self j hj,
      ih (fun b hb => hread b (List.mem_cons_of_mem _ hb)) rest h]
    rfl

/-- Named entries that are read back one by one are read back as a table. -/
theorem table?_of_writes {t : Table α} (h : i.Writes (.obj (t.map fun e => (e.1, f e.2))))
    (hs : t.Sorted) (hread : ∀ e ∈ t, ∀ j, Writes j (f e.2) → read j = some e.2) :
    i.table? read = some t := by
  rw [Writes] at h
  obtain ⟨entries, rfl, h⟩ := h
  have hpairs : (entries.mapM fun e => do
      let name ← e.1.text?
      let found ← read e.2
      some (name, found)) = some t := by
    clear hs
    induction t generalizing entries with
    | nil =>
      rw [List.map_nil, WritesFields] at h
      rw [h]
      rfl
    | cons e t ih =>
      rw [List.map_cons, WritesFields] at h
      obtain ⟨k, j, rest, rfl, hk, hj, h⟩ := h
      rw [List.mapM_cons, hk.text?, hread e List.mem_cons_self j hj,
        ih (fun d hd => hread d (List.mem_cons_of_mem _ hd)) rest h]
      rfl
  unfold table?
  rw [entries?, Option.bind_eq_bind, Option.bind_some, hpairs]
  exact congrArg some (Table.ofList_of_sorted hs)

end Members

/-! ### Records -/

/-- **A field of a record**: under its name stands what became of the field of an object, or nothing if
the object has none of that name. -/
def Finds (found : List (String × Item)) (fs : List (String × Value)) (name : String) : Prop :=
  Option.Rel Writes (found.lookup name) (fs.lookup name)

theorem finds_cons {found : List (String × Item)} {fs : List (String × Value)} {k name : String}
    {i : Item} {v : Value} (hi : i.Writes v) (h : Finds found fs name) :
    Finds ((k, i) :: found) ((k, v) :: fs) name := by
  rw [Finds, Table.lookup_cons, Table.lookup_cons]
  split
  · exact .some hi
  · exact h

theorem Finds.lookup_eq_none {found : List (String × Item)} {fs : List (String × Value)}
    {name : String} (h : Finds found fs name) (hv : fs.lookup name = none) :
    found.lookup name = none := by
  rw [Finds, hv] at h
  cases hf : found.lookup name with
  | none => rfl
  | some i => rw [hf] at h; contradiction

theorem Says.fieldName? {k : Item} {names : List String} {name : String} (h : k.Says (.text name))
    (hmem : name ∈ names) : fieldName? names k = some (some name) := by
  have htext := h.text?
  have hnamed : k.text?.map (fun s => if names.contains s then some s else none) =
      some (some name) := by
    rw [htext, Option.map_some, if_pos (List.contains_iff_mem.2 hmem)]
  obtain rfl | ⟨w, rfl, -⟩ := h
  · exact hnamed
  · exact hnamed

theorem collectFields_of_writes {names : List String} {fs : List (String × Value)}
    {entries : List (Item × Item)} (h : WritesFields entries fs) (hmem : ∀ e ∈ fs, e.1 ∈ names)
    (hn : (fs.map Prod.fst).Nodup) :
    ∃ found, collectFields names entries = some found ∧ ∀ name, Finds found fs name := by
  induction fs generalizing entries with
  | nil =>
    rw [WritesFields] at h
    exact ⟨[], by rw [h, collectFields], fun _ => .none⟩
  | cons e fs ih =>
    obtain ⟨k, v⟩ := e
    rw [WritesFields] at h
    obtain ⟨key, i, rest, rfl, hk, hi, h⟩ := h
    rw [List.map_cons, List.nodup_cons] at hn
    obtain ⟨found, hfound, hfinds⟩ := ih h (fun e he => hmem e (List.mem_cons_of_mem _ he)) hn.2
    have hnew : found.lookup k = none := (hfinds k).lookup_eq_none (Table.lookup_eq_none hn.1)
    refine ⟨(k, i) :: found, ?_, fun name => finds_cons hi (hfinds name)⟩
    rw [collectFields, hk.fieldName? (hmem _ List.mem_cons_self), hfound]
    simp [hnew]

/-- **Reading a record** finds the fields that were written, if no other name is among them and none
is repeated. -/
theorem record?_of_writes (names : List String) {fs : List (String × Value)} {i : Item}
    (h : i.Writes (.obj fs)) (hsub : Table.Among fs names) (hn : names.Nodup) :
    ∃ found, i.record? names = some found ∧ ∀ name, Finds found fs name := by
  rw [Writes] at h
  obtain ⟨entries, rfl, h⟩ := h
  exact collectFields_of_writes h (fun _ he => hsub.mem he) (hsub.nodup hn)

section Finds

variable {α : Type} {a : α} {found : List (String × Item)} {fs : List (String × Value)}
  {name : String} {read : Item → Option α}

theorem Finds.exists_lookup {v : Value} (h : Finds found fs name) (hv : fs.lookup name = some v) :
    ∃ i, found.lookup name = some i ∧ i.Writes v := by
  rw [Finds, hv] at h
  cases hf : found.lookup name with
  | none => rw [hf] at h; contradiction
  | some i =>
    rw [hf] at h
    cases h with
    | some hi => exact ⟨i, rfl, hi⟩

theorem Finds.required? (h : Finds found fs name) (v : Value) (hv : fs.lookup name = some v)
    (hread : ∀ i, Writes i v → read i = some a) : required? found name read = some a := by
  obtain ⟨i, hi, hw⟩ := h.exists_lookup hv
  rw [Item.required?, hi, Option.bind_some, hread i hw]

theorem Finds.field? (h : Finds found fs name) (v : Value) (hv : fs.lookup name = some v) {default : α}
    (hread : ∀ i, Writes i v → read i = some a) : field? found name default read = some a := by
  obtain ⟨i, hi, hw⟩ := h.exists_lookup hv
  rw [Item.field?, hi]
  exact hread i hw

theorem Finds.field?_default (h : Finds found fs name) (hv : fs.lookup name = none) {default : α} :
    Item.field? found name default read = some default := by
  rw [Item.field?, h.lookup_eq_none hv]

/-- A field that is left out if it has its default. -/
theorem Finds.field?_unless (h : Finds found fs name) (omitted : Bool) (v : Value)
    (hv : fs.lookup name = if omitted then none else some v) {default : α}
    (hdefault : omitted = true → default = a)
    (hread : omitted = false → ∀ i, Writes i v → read i = some a) :
    Item.field? found name default read = some a := by
  cases omitted with
  | true => rw [h.field?_default hv, hdefault rfl]
  | false => exact h.field? v hv (hread rfl)

/-- A field that is left out if there is nothing to say. -/
theorem Finds.field?_of {o : Option α} (h : Finds found fs name) (f : α → Value)
    (hv : fs.lookup name = o.map f) (hne : ∀ a ∈ o, f a ≠ .null)
    (hread : ∀ a ∈ o, ∀ i, Writes i (f a) → read i = some a) :
    Item.field? found name none (optional? read) = some o := by
  cases o with
  | none => exact h.field?_default hv
  | some a =>
    exact h.field? (f a) hv fun i hw =>
      (hw.optional? (hne a rfl) read).trans (congrArg (Option.map some) (hread a rfl i hw))

/-- A text that is always written. -/
theorem Finds.required?_text {s : String} (h : Finds found fs name)
    (hv : fs.lookup name = some (.str s)) : Item.required? found name Item.text? = some s :=
  h.required? (.str s) hv fun _ hi => hi.text?

/-- A text that is left out if it is empty. -/
theorem Finds.field?_text {s : String} (h : Finds found fs name)
    (hv : fs.lookup name = if s = "" then none else some (.str s)) :
    Item.field? found name "" Item.text? = some s :=
  h.field?_unless (s = "") (.str s) (by simpa using hv) (by simp) fun _ _ hi => hi.text?

/-- A text that may be missing. -/
theorem Finds.field?_optionalText {s : Option String} (h : Finds found fs name)
    (hv : fs.lookup name = s.map .str) :
    Item.field? found name none (Item.optional? Item.text?) = some s :=
  h.field?_of .str hv (by simp) fun _ _ _ hi => hi.text?

/-- A truth value that is left out if it is false. -/
theorem Finds.field?_flag {b : Bool} (h : Finds found fs name)
    (hv : fs.lookup name = if !b then none else some (.bool true)) :
    Item.field? found name false Item.bool? = some b := by
  cases b with
  | true => exact h.field? (.bool true) hv fun _ hi => hi.bool?
  | false => exact h.field?_default hv

/-- An object that is left out if it is empty. -/
theorem Finds.field?_object {t : Fields} (h : Finds found fs name) (ht : (Value.obj t).Proper)
    (hv : fs.lookup name = if t.isEmpty then none else some (.obj t)) :
    Item.field? found name [] Item.object? = some t :=
  h.field?_unless t.isEmpty (.obj t) hv (by simp) fun _ _ hi => hi.object? ht

end Finds

end Item

end Stepflow
