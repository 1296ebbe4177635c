import Stepflow.Proofs.Document.Writing
import Stepflow.Yaml.Alias

/-!
# Documents without aliases

A node in which nothing is anchored, tagged or an alias stands for itself: linking and following change
nothing in it, and no alias is counted. If it spells a value, the item of the document is what became
of the value.
-/

namespace Stepflow

deriving instance DecidableEq for Scalar

namespace Yaml

namespace Node

/-- A scalar without properties that means `s`. -/
def Says (n : Node) (s : Scalar) : Prop :=
  ∃ text style, n = .scalar {} text style ∧ (⟨text, style, none⟩ : Written).meaning? = some s

mutual

/-- **A node that spells a value**: without anchors, tags and aliases, its scalars mean those of the
value. -/
def Writes (n : Node) : Value → Prop
  | .null => n.Says .null
  | .bool b => n.Says (.bool b)
  | .int i => n.Says (.int i)
  | .float x => n.Says (.float x)
  | .str s => n.Says (.text s)
  | .arr vs => ∃ items, n = .seq {} items ∧ WritesAll items vs
  | .obj fs => ∃ entries, n = .map {} entries ∧ WritesFields entries fs

/-- Nodes that spell the members of a list. -/
def WritesAll (items : List Node) : List Value → Prop
  | [] => items = []
  | v :: vs => ∃ n rest, items = n :: rest ∧ Writes n v ∧ WritesAll rest vs

/-- Nodes that spell the fields of an object. -/
def WritesFields (entries : List (Node × Node)) : List (String × Value) → Prop
  | [] => entries = []
  | (name, v) :: fs =>
    ∃ k n rest, entries = (k, n) :: rest ∧ k.Says (.text name) ∧ Writes n v ∧ WritesFields rest fs

end

instance (n : Node) (s : Scalar) : Decidable (n.Says s) :=
  match n with
  | .scalar props text style =>
    decidable_of_iff (props = {} ∧ (⟨text, style, none⟩ : Written).meaning? = some s)
      ⟨fun ⟨hp, hm⟩ => ⟨text, style, by rw [hp], hm⟩, fun ⟨_, _, h, hm⟩ => by cases h; exact ⟨rfl, hm⟩⟩
  | .alias _ | .seq _ _ | .map _ _ => isFalse fun ⟨_, _, h, _⟩ => by cases h

mutual

/-- Whether a node spells a value can be told. -/
def decidableWrites : (n : Node) → (v : Value) → Decidable (n.Writes v)
  | n, .null => decidable_of_iff (n.Says .null) (by rw [Writes])
  | n, .bool b => decidable_of_iff (n.Says (.bool b)) (by rw [Writes])
  | n, .int i => decidable_of_iff (n.Says (.int i)) (by rw [Writes])
  | n, .float x => decidable_of_iff (n.Says (.float x)) (by rw [Writes])
  | n, .str s => decidable_of_iff (n.Says (.text s)) (by rw [Writes])
  | .seq props items, .arr vs =>
    have := decidableWritesAll items vs
    decidable_of_iff (props = {} ∧ WritesAll items vs) (by simp [Writes, and_assoc])
  | .map props entries, .obj fs =>
    have := decidableWritesFields entries fs
    decidable_of_iff (props = {} ∧ WritesFields entries fs) (by simp [Writes, and_assoc])
  | .scalar _ _ _, .arr _ | .alias _, .arr _ | .map _ _, .arr _ => isFalse (by simp [Writes])
  | .scalar _ _ _, .obj _ | .alias _, .obj _ | .seq _ _, .obj _ => isFalse (by simp [Writes])

/-- So can it be told of the members of a list. -/
def decidableWritesAll : (items : List Node) → (vs : List Value) → Decidable (WritesAll items vs)
  | [], [] => isTrue (by rw [WritesAll])
  | n :: items, v :: vs =>
    have := decidableWrites n v
    have := decidableWritesAll items vs
    decidable_of_iff (n.Writes v ∧ WritesAll items vs) (by simp [WritesAll, and_assoc])
  | [], _ :: _ | _ :: _, [] => isFalse (by simp [WritesAll])

/-- And of the fields of an object. -/
def decidableWritesFields : (entries : List (Node × Node)) → (fs : List (String × Value)) →
    Decidable (WritesFields entries fs)
  | [], [] => isTrue (by rw [WritesFields])
  | (k, n) :: entries, (name, v) :: fs =>
    have := decidableWrites n v
    have := decidableWritesFields entries fs
    decidable_of_iff (k.Says (.text name) ∧ n.Writes v ∧ WritesFields entries fs)
      (by simp [WritesFields, and_assoc])
  | [], _ :: _ | _ :: _, [] => isFalse (by simp [WritesFields])

end

instance (n : Node) (v : Value) : Decidable (n.Writes v) := decidableWrites n v

end Node

mutual

/-- Whether a reader looks at all of a value. -/
def Reach.Covers (r : Reach) : Value → Prop
  | .obj fs => r ≠ .nothing ∧ Reach.CoversFields r fs
  | .null | .bool _ | .int _ | .float _ | .str _ | .arr _ => r ≠ .nothing

/-- Whether a reader looks at all fields of an object. -/
def Reach.CoversFields (r : Reach) : List (String × Value) → Prop
  | [] => True
  | (k, v) :: fs => (r.into (.datum (.text k))).Covers v ∧ Reach.CoversFields r fs

end

theorem Reach.coversFields_iff {r : Reach} {fs : List (String × Value)} :
    r.CoversFields fs ↔ ∀ e ∈ fs, (r.into (.datum (.text e.1))).Covers e.2 := by
  induction fs with
  | nil => simp [CoversFields]
  | cons e fs ih => rw [CoversFields, ih, List.forall_mem_cons]

theorem Reach.Covers.ne_nothing {r : Reach} {v : Value} (h : r.Covers v) : r ≠ .nothing := by
  cases v with
  | obj fs =>
    rw [Covers] at h
    exact h.1
  | _ =>
    rw [Covers] at h
    exact h

mutual

/-- A reader of everything looks at all of every value. -/
theorem Reach.all_covers : (v : Value) → Reach.all.Covers v
  | .obj fs => by
    rw [Covers]
    exact ⟨by simp, all_coversFields fs⟩
  | .null | .bool _ | .int _ | .float _ | .str _ | .arr _ => by simp [Covers]

theorem Reach.all_coversFields : (fs : List (String × Value)) → Reach.all.CoversFields fs
  | [] => by rw [CoversFields]; trivial
  | (k, v) :: fs => by
    rw [CoversFields]
    exact ⟨all_covers v, all_coversFields fs⟩

end

theorem Reach.into_of_says {r : Reach} {k : Item} {name : String} (h : k.Says (.text name)) :
    r.into k = r.into (.datum (.text name)) := by
  cases r with
  | only fields =>
    rw [into, h.text?]
    rfl
  | _ => rfl

/-! ## Following -/

section Expand

variable {l : Links} {room : Nat} {reach : Reach} {followed : Nat}

/-- What comes after an action that counts nothing. -/
theorem run_bind_of {α β : Type} {x : StateM Nat α} {f : α → StateM Nat β} {a : α}
    (h : x.run followed = (a, followed)) : (x >>= f).run followed = (f a).run followed := by
  rw [StateT.run_bind, h]
  rfl

theorem expand_scalar (h : reach ≠ .nothing) (w : Written) :
    (expand l room reach (.scalar w)).run followed = (.written w, followed) := by
  rw [expand]
  · rfl
  · exact h

theorem expand_seq (h : reach ≠ .nothing) (items : List Linked) :
    (expand l (room + 1) reach (.seq none items)).run followed =
      let r := (items.mapM (expand l room .all)).run followed
      (.list false r.1, r.2) := by
  rw [expand]
  · rfl
  · exact h

theorem expand_map (h : reach ≠ .nothing) (entries : List (Linked × Linked)) :
    (expand l (room + 1) reach (.map none entries)).run followed =
      let r := (entries.mapM fun (k, v) => do
        let key ← expand l room .all k
        return (key, ← expand l room (reach.into key) v)).run followed
      (.mapping r.1, r.2) := by
  rw [expand]
  · rfl
  · exact h

end Expand

/-- What following a linked node gives, wherever it stands and whatever was counted before: what became
of a value. -/
def Linked.Gives (m : Linked) (v : Value) : Prop :=
  ∀ (l : Links) (room : Nat) (reach : Reach) (followed : Nat), v.depth ≤ room → reach.Covers v →
    ∃ i, (expand l room reach m).run followed = (i, followed) ∧ i.Writes v

/-- What following linked nodes gives: what became of the members of a list. -/
def GivesAll (ms : List Linked) (vs : List Value) : Prop :=
  ∀ (l : Links) (room followed : Nat), Value.depthList vs ≤ room →
    ∃ items, (ms.mapM (expand l room .all)).run followed = (items, followed) ∧ Item.WritesAll items vs

/-- What following linked entries gives: what became of the fields of an object. -/
def GivesFields (ms : List (Linked × Linked)) (fs : List (String × Value)) : Prop :=
  ∀ (l : Links) (room : Nat) (reach : Reach) (followed : Nat), Value.depthFields fs ≤ room →
    reach.CoversFields fs →
    ∃ entries, (ms.mapM fun (k, v) => do
        let key ← expand l room .all k
        return (key, ← expand l room (reach.into key) v)).run followed = (entries, followed) ∧
      Item.WritesFields entries fs

theorem gives_scalar {w : Written} {v : Value} {s : Scalar} (ht : w.tag = none)
    (hm : w.meaning? = some s) (hv : ∀ i : Item, i.Says s → i.Writes v) : (Linked.scalar w).Gives v :=
  fun _ _ _ _ _ hc =>
    ⟨.written w, expand_scalar hc.ne_nothing w, hv _ (.inr ⟨w, rfl, ht, hm⟩)⟩

theorem GivesAll.seq {ms : List Linked} {vs : List Value} (h : GivesAll ms vs) :
    (Linked.seq none ms).Gives (.arr vs) := by
  intro l room reach followed hroom hc
  rw [Value.depth] at hroom
  obtain ⟨room, rfl⟩ := Nat.exists_eq_add_one.2 (Nat.zero_lt_of_lt hroom)
  obtain ⟨items, hrun, hw⟩ := h l room followed (Nat.le_of_succ_le_succ hroom)
  refine ⟨.list false items, ?_, ?_⟩
  · rw [expand_seq hc.ne_nothing, hrun]
  · rw [Item.Writes]
    exact ⟨false, items, rfl, hw⟩

theorem GivesFields.map {ms : List (Linked × Linked)} {fs : List (String × Value)}
    (h : GivesFields ms fs) : (Linked.map none ms).Gives (.obj fs) := by
  intro l room reach followed hroom hc
  rw [Value.depth] at hroom
  obtain ⟨room, rfl⟩ := Nat.exists_eq_add_one.2 (Nat.zero_lt_of_lt hroom)
  have hfields := hc
  rw [Reach.Covers] at hfields
  obtain ⟨entries, hrun, hw⟩ := h l room reach followed (Nat.le_of_succ_le_succ hroom) hfields.2
  refine ⟨.mapping entries, ?_, ?_⟩
  · rw [expand_map hc.ne_nothing, hrun]
  · rw [Item.Writes]
    exact ⟨entries, rfl, hw⟩

theorem GivesAll.cons {m : Linked} {v : Value} {ms : List Linked} {vs : List Value} (hm : m.Gives v)
    (h : GivesAll ms vs) : GivesAll (m :: ms) (v :: vs) := by
  intro l room followed hroom
  rw [Value.depthList] at hroom
  obtain ⟨i, hi, hw⟩ := hm l room .all followed (by omega) (Reach.all_covers v)
  obtain ⟨items, his, hws⟩ := h l room followed (by omega)
  refine ⟨i :: items, ?_, ?_⟩
  · rw [List.mapM_cons, run_bind_of hi, run_bind_of his]
    rfl
  · rw [Item.WritesAll]
    exact ⟨i, items, rfl, hw, hws⟩

theorem GivesFields.cons {w : Written} {name : String} (ht : w.tag = none)
    (hmean : w.meaning? = some (.text name)) {m : Linked} {v : Value} {ms : List (Linked × Linked)}
    {fs : List (String × Value)} (hm : m.Gives v) (h : GivesFields ms fs) :
    GivesFields ((.scalar w, m) :: ms) ((name, v) :: fs) := by
  intro l room reach followed hroom hc
  rw [Value.depthFields] at hroom
  rw [Reach.CoversFields] at hc
  have hkey : (Item.written w).Says (.text name) := .inr ⟨w, rfl, ht, hmean⟩
  obtain ⟨i, hi, hw⟩ := hm l room (reach.into (.written w)) followed (by omega)
    (Reach.into_of_says hkey ▸ hc.1)
  obtain ⟨entries, hes, hws⟩ := h l room reach followed (by omega) hc.2
  refine ⟨(.written w, i) :: entries, ?_, ?_⟩
  · have hscalar : (expand l room .all (.scalar w)).run followed = (.written w, followed) :=
      expand_scalar (by simp) w
    have hfirst : (do
        let key ← expand l room .all (.scalar w)
        return (key, ← expand l room (reach.into key) m)).run followed =
          ((.written w, i), followed) := by
      rw [run_bind_of hscalar, run_bind_of hi]
      rfl
    rw [List.mapM_cons, run_bind_of hfirst, run_bind_of hes]
    rfl
  · rw [Item.WritesFields]
    exact ⟨_, i, entries, rfl, hkey, hw, hws⟩

/-! ## Linking -/

/-- A scalar that means `s` is linked to itself. -/
theorem link?_says {n : Node} {s : Scalar} (h : n.Says s) (l : Links) :
    ∃ w l', link? n l = some (.scalar w, l') ∧ w.tag = none ∧ w.meaning? = some s := by
  obtain ⟨text, style, rfl, hm⟩ := h
  exact ⟨⟨text, style, none⟩, _, by rw [link?], rfl, hm⟩

theorem link?_scalar {n : Node} {v : Value} {s : Scalar} (h : n.Says s)
    (hv : ∀ i : Item, i.Says s → i.Writes v) (l : Links) :
    ∃ m l', link? n l = some (m, l') ∧ m.Gives v := by
  obtain ⟨w, l', hl, ht, hm⟩ := link?_says h l
  exact ⟨_, l', hl, gives_scalar ht hm hv⟩

mutual

/-- **A node that spells a value** is linked to one that gives what became of the value. -/
theorem link?_writes : (v : Value) → ∀ {n : Node}, n.Writes v → ∀ l : Links,
    ∃ m l', link? n l = some (m, l') ∧ m.Gives v
  | .null | .bool _ | .int _ | .float _ | .str _ => by
    intro h l
    rw [Node.Writes] at h
    exact link?_scalar h (fun i hi => by rwa [Item.Writes]) l
  | .arr vs => by
    intro h l
    rw [Node.Writes] at h
    obtain ⟨items, rfl, h⟩ := h
    -- the counts of nodes and events go up, which no node of this kind looks at
    obtain ⟨ms, l', hl, hg⟩ := linkItems?_writes vs h (l.enter none).2
    refine ⟨.seq none ms, { l' with events := l'.events + 1 }, ?_, hg.seq⟩
    simp only [link?, hl, Option.bind_eq_bind, Option.bind_some]
    rfl
  | .obj fs => by
    intro h l
    rw [Node.Writes] at h
    obtain ⟨entries, rfl, h⟩ := h
    obtain ⟨ms, l', hl, hg⟩ := linkEntries?_writes fs h (l.enter none).2
    refine ⟨.map none ms, { l' with events := l'.events + 1 }, ?_, hg.map⟩
    simp only [link?, hl, Option.bind_eq_bind, Option.bind_some]
    rfl

theorem linkItems?_writes : (vs : List Value) → ∀ {items : List Node}, Node.WritesAll items vs →
    ∀ l : Links, ∃ ms l', linkItems? items l = some (ms, l') ∧ GivesAll ms vs
  | [] => by
    intro h l
    rw [Node.WritesAll] at h
    refine ⟨[], l, by rw [h, linkItems?], fun _ _ _ _ => ⟨[], rfl, ?_⟩⟩
    rw [Item.WritesAll]
  | v :: vs => by
    intro h l
    rw [Node.WritesAll] at h
    obtain ⟨n, rest, rfl, hn, h⟩ := h
    obtain ⟨m, l₁, hm, hg⟩ := link?_writes v hn l
    obtain ⟨ms, l₂, hms, hgs⟩ := linkItems?_writes vs h l₁
    refine ⟨m :: ms, l₂, ?_, GivesAll.cons hg hgs⟩
    simp only [linkItems?, hm, hms, Option.bind_eq_bind, Option.bind_some]

theorem linkEntries?_writes : (fs : List (String × Value)) → ∀ {entries : List (Node × Node)},
    Node.WritesFields entries fs → ∀ l : Links,
      ∃ ms l', linkEntries? entries l = some (ms, l') ∧ GivesFields ms fs
  | [] => by
    intro h l
    rw [Node.WritesFields] at h
    refine ⟨[], l, by rw [h, linkEntries?], fun _ _ _ _ _ _ => ⟨[], rfl, ?_⟩⟩
    rw [Item.WritesFields]
  | (name, v) :: fs => by
    intro h l
    rw [Node.WritesFields] at h
    obtain ⟨k, n, rest, rfl, hk, hn, h⟩ := h
    obtain ⟨w, l₁, hw, ht, hm⟩ := link?_says hk l
    obtain ⟨m, l₂, hl, hg⟩ := link?_writes v hn l₁
    obtain ⟨ms, l₃, hms, hgs⟩ := linkEntries?_writes fs h l₂
    refine ⟨(.scalar w, m) :: ms, l₃, ?_, GivesFields.cons ht hm hg hgs⟩
    simp only [linkEntries?, hw, hl, hms, Option.bind_eq_bind, Option.bind_some]

end

/-- A text that holds one document, which spells a value. -/
def Spelled (text : List Char) (v : Value) : Prop :=
  ∃ root, Node.ofText? text = some (some root) ∧ root.Writes v

instance (text : List Char) (v : Value) : Decidable (Spelled text v) :=
  match h : Node.ofText? text with
  | some (some root) => decidable_of_iff (root.Writes v) (by simp [Spelled, h])
  | some none | none => isFalse (by simp [Spelled, h])

/-- **The item of a document that spells a value** is what became of the value, if it is not too deep,
for every reader that looks at all of it. -/
theorem toItem?_of_spelled {text : List Char} {v : Value} (h : Spelled text v)
    (hdepth : v.depth ≤ maxDepth) {reach : Reach} (hc : reach.Covers v) :
    ∃ i, toItem? reach text = some i ∧ i.Writes v := by
  obtain ⟨root, hroot, hw⟩ := h
  obtain ⟨m, l, hl, hg⟩ := link?_writes v hw {}
  obtain ⟨i, hi, hwrites⟩ := hg l maxDepth reach 0 hdepth hc
  refine ⟨i, ?_, hwrites⟩
  rw [toItem?, hroot, Option.bind_eq_bind, Option.bind_some]
  simp only [hl, hi, Option.bind_eq_bind, Option.bind_some]

end Yaml

end Stepflow
