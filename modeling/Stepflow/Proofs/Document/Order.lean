import Mathlib.Data.List.Nodup
import Mathlib.Data.List.Perm.Basic
import Stepflow.Value

/-!
# The order of fields

Reading an object puts its fields in the order of their names, and of two fields of one name keeps the
later one. Where no name is repeated nothing is lost by this, and a table stays as it is.
-/

namespace Stepflow

namespace Table

variable {β : Type} {t l : Table β} {name : String} {v : β}

theorem mem_insert {e : String × β} (h : e ∈ t.insert name v) : e = (name, v) ∨ e ∈ t := by
  induction t with
  | nil => exact .inl (List.mem_singleton.1 h)
  | cons first rest ih =>
    obtain ⟨k, w⟩ := first
    rw [insert] at h
    split at h
    · exact (List.mem_cons.1 h).imp_right (List.mem_cons_of_mem _)
    · split at h
      · exact List.mem_cons.1 h
      · obtain rfl | h := List.mem_cons.1 h
        · exact .inr List.mem_cons_self
        · exact (ih h).imp_right (List.mem_cons_of_mem _)

/-- What was merged comes from one of the two tables. -/
theorem mem_merge {e : String × β} (h : e ∈ t.merge l) : e ∈ t ∨ e ∈ l := by
  induction l generalizing t with
  | nil => exact .inl h
  | cons first rest ih =>
    obtain h | h := ih h
    · obtain rfl | h := mem_insert h
      · exact .inr List.mem_cons_self
      · exact .inl h
    · exact .inr (List.mem_cons_of_mem _ h)

theorem mem_ofList {e : String × β} (h : e ∈ ofList l) : e ∈ l :=
  (mem_merge h).resolve_left List.not_mem_nil

/-- An entry behind all others is put at the end. -/
theorem insert_of_lt (h : ∀ e ∈ t, e.1 < name) : t.insert name v = t ++ [(name, v)] := by
  induction t with
  | nil => rfl
  | cons first rest ih =>
    obtain ⟨k, w⟩ := first
    have hk : k < name := h _ List.mem_cons_self
    have hne : k ≠ name := fun heq => String.lt_irrefl _ (heq ▸ hk)
    rw [insert, if_neg hne, if_neg (String.lt_asymm hk), ih fun e he => h e (List.mem_cons_of_mem _ he)]
    rfl

theorem merge_of_sorted (h : Sorted (t ++ l)) : t.merge l = t ++ l := by
  induction l generalizing t with
  | nil => exact (List.append_nil t).symm
  | cons first rest ih =>
    have hlast : ∀ e ∈ t, e.1 < first.1 := fun e he =>
      (List.pairwise_append.1 h).2.2 e he first List.mem_cons_self
    have hsplit : t ++ first :: rest = (t ++ [first]) ++ rest := by
      rw [List.append_assoc, List.singleton_append]
    have hstep : t.merge (first :: rest) = (t.insert first.1 first.2).merge rest := rfl
    rw [hstep, insert_of_lt hlast, ih (hsplit ▸ h), hsplit]

/-- **A table** is the table of its entries. -/
theorem ofList_of_sorted (h : Sorted t) : ofList t = t := merge_of_sorted h

@[simp] theorem lookup_cons {k : String} :
    List.lookup name ((k, v) :: l) = if name = k then some v else l.lookup name := by
  rw [List.lookup_cons]
  by_cases h : name = k
  · rw [if_pos h, h, beq_self_eq_true]
  · rw [if_neg h, beq_eq_false_iff_ne.2 h]

theorem lookup_eq_none (h : name ∉ l.map Prod.fst) : l.lookup name = none :=
  List.lookup_eq_none_iff.2 fun p hp =>
    bne_iff_ne.2 fun heq : name = p.1 => h (List.mem_map.2 ⟨p, hp, heq.symm⟩)

theorem get?_merge (h : (l.map Prod.fst).Nodup) :
    (t.merge l).get? name = (l.lookup name).or (t.get? name) := by
  induction l generalizing t with
  | nil => rfl
  | cons first rest ih =>
    obtain ⟨k, w⟩ := first
    rw [List.map_cons, List.nodup_cons] at h
    have hstep : t.merge ((k, w) :: rest) = (t.insert k w).merge rest := rfl
    rw [hstep, ih h.2, lookup_cons]
    by_cases hk : name = k
    · subst hk
      rw [lookup_eq_none h.1, get?_insert_self, if_pos rfl]
      rfl
    · rw [get?_insert_of_ne t w (Ne.symm hk), if_neg hk]

/-- **Where no name is repeated** the table of a list of entries holds each of them. -/
theorem get?_ofList (h : (l.map Prod.fst).Nodup) : (ofList l).get? name = l.lookup name := by
  rw [ofList, get?_merge h, get?_nil, Option.or_none]

/-- The names of entries are some of the given ones, in the same order. -/
def Among (l : List (String × β)) (names : List String) : Prop := (l.map Prod.fst).Sublist names

theorem among_singleton : Among [(name, v)] [name] := List.Sublist.refl _

theorem Among.append {m : List (String × β)} {names others : List String} (hl : Among l names)
    (hm : Among m others) : Among (l ++ m) (names ++ others) := by
  rw [Among, List.map_append]
  exact List.Sublist.append hl hm

theorem Among.mem {names : List String} (h : Among l names) {e : String × β} (he : e ∈ l) :
    e.1 ∈ names := h.subset (List.mem_map_of_mem he)

theorem Among.nodup {names : List String} (h : Among l names) (hn : names.Nodup) :
    (l.map Prod.fst).Nodup := hn.sublist h

end Table

namespace Value

mutual

/-- The value in which the fields of every object stand in the order of their names. -/
def inOrder : Value → Value
  | .arr vs => .arr (inOrderAll vs)
  | .obj fs => .obj (Table.ofList (inOrderFields fs))
  | .null => .null
  | .bool b => .bool b
  | .int n => .int n
  | .float x => .float x
  | .str s => .str s

/-- The members of a list, in order. -/
def inOrderAll : List Value → List Value
  | [] => []
  | v :: rest => inOrder v :: inOrderAll rest

/-- Named values, each in order. -/
def inOrderFields : List (String × Value) → List (String × Value)
  | [] => []
  | (k, v) :: rest => (k, inOrder v) :: inOrderFields rest

end

mutual

/-- Whether something holds of a value and of all values inside it. -/
def Throughout (P : Value → Prop) : Value → Prop
  | .arr vs => P (.arr vs) ∧ ThroughoutAll P vs
  | .obj fs => P (.obj fs) ∧ ThroughoutFields P fs
  | .null => P .null
  | .bool b => P (.bool b)
  | .int n => P (.int n)
  | .float x => P (.float x)
  | .str s => P (.str s)

/-- Whether something holds throughout the members of a list. -/
def ThroughoutAll (P : Value → Prop) : List Value → Prop
  | [] => True
  | v :: rest => Throughout P v ∧ ThroughoutAll P rest

/-- Whether something holds throughout named values. -/
def ThroughoutFields (P : Value → Prop) : List (String × Value) → Prop
  | [] => True
  | (_, v) :: rest => Throughout P v ∧ ThroughoutFields P rest

end

/-- Whether the fields of an object stand in the order of their names. -/
def Ordered : Value → Prop
  | .obj fs => Table.Sorted fs
  | _ => True

/-- Whether a number is one that a value can hold. -/
def Bounded : Value → Prop
  | .int n => minInt ≤ n ∧ n < intBound
  | .float x => x.isFinite
  | _ => True

/-- **A value as programs hold it**: its objects are in order, its numbers are within bounds. -/
structure Proper (v : Value) : Prop where
  /-- The fields of every object stand in the order of their names. -/
  ordered : v.Throughout Ordered
  /-- Whole numbers have 64 bits, others are finite. -/
  bounded : v.Throughout Bounded

theorem inOrderFields_eq (fs : List (String × Value)) :
    inOrderFields fs = fs.map fun e => (e.1, e.2.inOrder) := by
  induction fs with
  | nil => rw [inOrderFields]; rfl
  | cons e rest ih =>
    obtain ⟨k, v⟩ := e
    rw [inOrderFields, ih]
    rfl

theorem names_inOrderFields (fs : List (String × Value)) :
    (inOrderFields fs).map Prod.fst = fs.map Prod.fst := by
  rw [inOrderFields_eq, List.map_map]
  rfl

theorem mem_inOrderFields {fs : List (String × Value)} {name : String} {u : Value} :
    (name, u) ∈ inOrderFields fs ↔ ∃ v, (name, v) ∈ fs ∧ v.inOrder = u := by
  rw [inOrderFields_eq, List.mem_map]
  constructor
  · rintro ⟨⟨k, v⟩, he, heq⟩
    obtain ⟨rfl, rfl⟩ := Prod.mk.inj heq
    exact ⟨v, he, rfl⟩
  · rintro ⟨v, he, rfl⟩
    exact ⟨(name, v), he, rfl⟩

theorem inOrderAll_eq (vs : List Value) : inOrderAll vs = vs.map inOrder := by
  induction vs with
  | nil => rw [inOrderAll]; rfl
  | cons v rest ih =>
    rw [inOrderAll, ih]
    rfl

theorem throughoutAll_iff {P : Value → Prop} {vs : List Value} :
    ThroughoutAll P vs ↔ ∀ v ∈ vs, v.Throughout P := by
  induction vs with
  | nil => simp [ThroughoutAll]
  | cons v rest ih => rw [ThroughoutAll, ih, List.forall_mem_cons]

theorem throughoutFields_iff {P : Value → Prop} {fs : List (String × Value)} :
    ThroughoutFields P fs ↔ ∀ e ∈ fs, e.2.Throughout P := by
  induction fs with
  | nil => simp [ThroughoutFields]
  | cons e rest ih => rw [ThroughoutFields, ih, List.forall_mem_cons]

theorem depth_lt_of_mem {vs : List Value} {v : Value} (h : v ∈ vs) :
    v.depth < (Value.arr vs).depth := by
  rw [depth, Nat.lt_succ_iff]
  induction vs with
  | nil => contradiction
  | cons first rest ih =>
    rw [depthList]
    obtain rfl | h := List.mem_cons.1 h
    · exact Nat.le_max_left _ _
    · exact Nat.le_trans (ih h) (Nat.le_max_right _ _)

theorem depth_lt_of_mem_fields {fs : List (String × Value)} {e : String × Value} (h : e ∈ fs) :
    e.2.depth < (Value.obj fs).depth := by
  rw [depth, Nat.lt_succ_iff]
  induction fs with
  | nil => contradiction
  | cons first rest ih =>
    rw [depthFields]
    obtain rfl | h := List.mem_cons.1 h
    · exact Nat.le_max_left _ _
    · exact Nat.le_trans (ih h) (Nat.le_max_right _ _)

/-- **What holds of a list or an object if it holds of everything in it**, and of all scalars, holds of all
values. -/
theorem induction {motive : Value → Prop} (null : motive .null) (bool : ∀ b, motive (.bool b))
    (int : ∀ n, motive (.int n)) (float : ∀ x, motive (.float x)) (str : ∀ s, motive (.str s))
    (arr : ∀ vs, (∀ v ∈ vs, motive v) → motive (.arr vs))
    (obj : ∀ fs, (∀ e ∈ fs, motive e.2) → motive (.obj fs)) (v : Value) : motive v := by
  induction hdepth : v.depth using Nat.strongRecOn generalizing v with
  | ind depth ih =>
    subst hdepth
    cases v with
    | null => exact null
    | bool b => exact bool b
    | int n => exact int n
    | float x => exact float x
    | str s => exact str s
    | arr vs => exact arr vs fun v hv => ih v.depth (depth_lt_of_mem hv) v rfl
    | obj fs => exact obj fs fun e he => ih e.2.depth (depth_lt_of_mem_fields he) e.2 rfl

/-- Numbers stay within bounds when fields are put in order. -/
theorem bounded_inOrder {v : Value} (h : v.Throughout Bounded) : v.inOrder.Throughout Bounded := by
  induction v using induction with
  | null | bool | int | float | str =>
    rw [inOrder]
    exact h
  | arr vs ih =>
    rw [Throughout, throughoutAll_iff] at h
    rw [inOrder, Throughout, throughoutAll_iff, inOrderAll_eq]
    refine ⟨trivial, fun u hu => ?_⟩
    obtain ⟨v, hv, rfl⟩ := List.mem_map.1 hu
    exact ih v hv (h.2 v hv)
  | obj fs ih =>
    rw [Throughout, throughoutFields_iff] at h
    rw [inOrder, Throughout, throughoutFields_iff]
    refine ⟨trivial, fun e he => ?_⟩
    obtain ⟨v, hv, hval⟩ := mem_inOrderFields.1 (Table.mem_ofList he)
    rw [← hval]
    exact ih _ hv (h.2 _ hv)

mutual

/-- **A value whose objects are in order** stays as it is. -/
theorem inOrder_of_ordered : {v : Value} → v.Throughout Ordered → v.inOrder = v
  | .null, _ | .bool _, _ | .int _, _ | .float _, _ | .str _, _ => by simp [inOrder]
  | .arr vs, h => by
    rw [Throughout] at h
    rw [inOrder, inOrderAll_of_ordered h.2]
  | .obj fs, h => by
    rw [Throughout] at h
    rw [inOrder, inOrderFields_of_ordered h.2, Table.ofList_of_sorted h.1]

theorem inOrderAll_of_ordered : {vs : List Value} → ThroughoutAll Ordered vs → inOrderAll vs = vs
  | [], _ => by rw [inOrderAll]
  | v :: rest, h => by
    rw [ThroughoutAll] at h
    rw [inOrderAll, inOrder_of_ordered h.1, inOrderAll_of_ordered h.2]

theorem inOrderFields_of_ordered : {fs : List (String × Value)} → ThroughoutFields Ordered fs →
    inOrderFields fs = fs
  | [], _ => by rw [inOrderFields]
  | (k, v) :: rest, h => by
    rw [ThroughoutFields] at h
    rw [inOrderFields, inOrder_of_ordered h.1, inOrderFields_of_ordered h.2]

end

end Value

end Stepflow

/-!
## What is in a table

A table that is in order stays in order when something is put in, and has every name once: what is found
under a name is the one entry of it, and putting in an entry exchanges it for the one that was there.
-/

namespace Stepflow.Table

variable {β : Type} {t : Table β} {name : String} {v : β}

theorem sorted_insert (h : t.Sorted) : (t.insert name v).Sorted := by
  induction t with
  | nil => exact List.pairwise_singleton _ _
  | cons e rest ih =>
    obtain ⟨k, w⟩ := e
    obtain ⟨hfirst, hrest⟩ := List.pairwise_cons.1 h
    rw [insert]
    split
    · rename_i hk
      exact List.pairwise_cons.2 ⟨fun e he => hk ▸ hfirst e he, hrest⟩
    · rename_i hne
      split
      · rename_i hlt
        refine List.pairwise_cons.2 ⟨fun e he => ?_, h⟩
        obtain rfl | he := List.mem_cons.1 he
        · exact hlt
        · exact String.lt_trans hlt (hfirst e he)
      · rename_i hnlt
        refine List.pairwise_cons.2 ⟨fun e he => ?_, ih hrest⟩
        obtain rfl | he := mem_insert he
        · exact Decidable.by_contra fun hk =>
            hne (String.le_antisymm (String.not_lt.1 hnlt) (String.not_lt.1 hk))
        · exact hfirst e he

theorem get?_eq_none_of_lt (h : ∀ e ∈ t, name < e.1) : t.get? name = none := by
  induction t with
  | nil => rfl
  | cons e rest ih =>
    obtain ⟨k, w⟩ := e
    have hne : k ≠ name := fun heq => String.lt_irrefl _ (heq ▸ h _ List.mem_cons_self)
    rw [get?, if_neg hne, ih fun e he => h e (List.mem_cons_of_mem _ he)]

/-- **What is found** is the one entry of the name. -/
theorem get?_eq_some_iff (h : t.Sorted) : t.get? name = some v ↔ (name, v) ∈ t := by
  refine ⟨mem_of_get?, fun hmem => ?_⟩
  induction t with
  | nil => contradiction
  | cons e rest ih =>
    obtain ⟨k, w⟩ := e
    obtain ⟨hfirst, hrest⟩ := List.pairwise_cons.1 h
    rw [get?]
    obtain heq | hmem := List.mem_cons.1 hmem
    · obtain ⟨rfl, rfl⟩ := Prod.mk.inj heq
      exact if_pos rfl
    · have hne : k ≠ name := fun heq => String.lt_irrefl _ (heq ▸ hfirst _ hmem)
      rw [if_neg hne]
      exact ih hrest hmem

/-- **Tables in which the same is found** under every name are the same. -/
theorem eq_of_get? {u : Table β} (ht : t.Sorted) (hu : u.Sorted) (h : ∀ name, t.get? name = u.get? name) :
    t = u := by
  have hnodup {r : Table β} (hr : r.Sorted) : r.Nodup := by
    refine List.Pairwise.imp (fun hlt => ?_) hr
    rintro rfl
    exact String.lt_irrefl _ hlt
  have hperm : t.Perm u := (List.perm_ext_iff_of_nodup (hnodup ht) (hnodup hu)).2 fun (name, v) => by
    rw [← get?_eq_some_iff ht, h, get?_eq_some_iff hu]
  exact hperm.eq_of_pairwise (fun _ _ _ _ hlt hgt => absurd hgt (String.lt_asymm hlt)) ht hu

/-- **Putting in** exchanges an entry for the one that was there. -/
theorem insert_perm (h : t.Sorted) (name : String) (v : β) :
    (t.insert name v ++ ((t.get? name).map (name, ·)).toList).Perm ((name, v) :: t) := by
  induction t with
  | nil => exact .refl _
  | cons e rest ih =>
    obtain ⟨k, w⟩ := e
    obtain ⟨hfirst, hrest⟩ := List.pairwise_cons.1 h
    rw [insert, get?]
    split
    · rename_i hk
      subst hk
      exact (List.perm_append_singleton (k, w) rest).cons _
    · split
      · rename_i hlt
        rw [get?_eq_none_of_lt fun e he => String.lt_trans hlt (hfirst e he)]
        exact .of_eq (List.append_nil _)
      · exact ((ih hrest).cons _).trans (.swap _ _ _)

theorem insert_comm_of_lt {a b : String} (h : a < b) (t : Table β) (x y : β) :
    (t.insert a x).insert b y = (t.insert b y).insert a x := by
  have hne : a ≠ b := fun heq => String.lt_irrefl _ (heq ▸ h)
  have hnot : ¬b < a := String.lt_asymm h
  induction t with
  | nil => simp [insert, hne, hne.symm, h, hnot]
  | cons e rest ih =>
    obtain ⟨k, w⟩ := e
    by_cases hka : k = a
    · subst hka
      simp [insert, hne, hnot]
    · by_cases hak : a < k
      · -- the smaller name goes to the front, whether the other is there or not
        by_cases hkb : k = b
        · subst hkb
          simp [insert, hne, hne.symm, h, hnot]
        · by_cases hbk : b < k
          · simp [insert, hka, hak, hkb, hbk, hne, hne.symm, h, hnot]
          · simp [insert, hka, hak, hkb, hbk, hne, hnot]
      · have hlt : k < a := by
          refine String.not_le.1 fun hle => hka ?_
          exact String.le_antisymm (String.not_lt.1 hak) hle
        have hkb : k ≠ b := fun heq => hnot (heq ▸ hlt)
        have hbk : ¬b < k := String.lt_asymm (String.lt_trans hlt h)
        simp [insert, hka, hak, hkb, hbk, ih]

/-- **Entries of different names** may be put in in either order. -/
theorem insert_comm {a b : String} (hne : a ≠ b) (t : Table β) (x y : β) :
    (t.insert a x).insert b y = (t.insert b y).insert a x := by
  by_cases h : a < b
  · exact insert_comm_of_lt h t x y
  · refine (insert_comm_of_lt (String.not_le.1 fun hle => hne ?_) t y x).symm
    exact String.le_antisymm hle (String.not_lt.1 h)

/-- So the table of some entries does not depend on their order, where no name is repeated. -/
theorem ofList_perm {l l' : List (String × β)} (hp : l.Perm l') (hn : (l.map Prod.fst).Nodup) :
    ofList l = ofList l' := by
  refine hp.foldl_eq' (fun e he e' he' t => ?_) []
  by_cases hname : e.1 = e'.1
  · rw [List.inj_on_of_nodup_map hn he he' hname]
  · exact insert_comm hname t e.2 e'.2

/-- And it has each of them. -/
theorem get?_ofList_iff {l : List (String × β)} (hn : (l.map Prod.fst).Nodup) :
    (ofList l).get? name = some v ↔ (name, v) ∈ l := by
  refine ⟨fun h => mem_ofList (mem_of_get? h), fun hmem => ?_⟩
  cases hfound : (ofList l).get? name with
  | none =>
    rw [get?_ofList hn] at hfound
    have hne := bne_iff_ne.1 (List.lookup_eq_none_iff.1 hfound _ hmem)
    exact absurd rfl hne
  | some w =>
    have hsame := List.inj_on_of_nodup_map hn (mem_ofList (mem_of_get? hfound)) hmem rfl
    rw [(Prod.mk.inj hsame).2]

/-- The names of a table of entries are in order. -/
theorem sorted_ofList (l : List (String × β)) : (ofList l).Sorted := by
  have hmerge {t : Table β} (ht : t.Sorted) : (t.merge l).Sorted := by
    induction l generalizing t with
    | nil => exact ht
    | cons e rest ih => exact ih (sorted_insert ht)
  exact hmerge List.Pairwise.nil

/-- **Entries make the same table** exactly if they are the same entries, where no name is repeated. -/
theorem ofList_eq_iff {l m : List (String × β)} (hl : (l.map Prod.fst).Nodup) (hm : (m.map Prod.fst).Nodup) :
    ofList l = ofList m ↔ ∀ e, e ∈ l ↔ e ∈ m := by
  constructor
  · rintro h ⟨name, v⟩
    rw [← get?_ofList_iff hl, ← get?_ofList_iff hm, h]
  · intro h
    refine eq_of_get? (sorted_ofList l) (sorted_ofList m) fun name => Option.ext fun v => ?_
    rw [get?_ofList_iff hl, get?_ofList_iff hm, h]

end Stepflow.Table
