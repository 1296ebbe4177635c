import Stepflow.Checkpoint.Basic
import Stepflow.Proofs.Json.Compact

/-!
# The fingerprint of inputs

The fingerprint of the inputs of a run tells inputs apart: it is the same for two objects exactly if these
are alike, that is, if they differ in the order of their fields only, at any depth (`inputsHash_exact`).

Up to the digest nothing gets lost. Alike objects become the same table (`Value.alike_iff`), different
tables have different compact texts, different texts have different bytes, and different digests have
different hexadecimal digits. So two objects that are not alike have the same fingerprint only if their
texts are a collision of the digest.
-/

namespace Stepflow

/-! ## Digests -/

namespace Digest

/-- **A collision**: two different messages with the same digest. -/
structure Collision (p q : List UInt8) : Prop where
  /-- The messages are different. -/
  different : p ≠ q
  /-- Their digests are the same. -/
  same : sha256 p = sha256 q

theorem length_hexWord (w : UInt32) : (hexWord w).length = 8 := by
  rw [hexWord, List.length_map, List.length_range]

/-- A number is determined by its hexadecimal digits, the last of them and those of the rest. -/
theorem eq_of_digits {k m n : Nat} (hm : m < 16 ^ k) (hn : n < 16 ^ k)
    (h : ∀ i < k, m / 16 ^ i % 16 = n / 16 ^ i % 16) : m = n := by
  induction k generalizing m n with
  | zero => omega
  | succ k ih =>
    have hlast : m % 16 = n % 16 := by simpa using h 0 (Nat.succ_pos k)
    have hrest : m / 16 = n / 16 := by
      refine ih (by omega) (by omega) fun i hi => ?_
      have hi' := h (i + 1) (Nat.succ_lt_succ hi)
      rwa [pow_succ', ← Nat.div_div_eq_div_mul, ← Nat.div_div_eq_div_mul] at hi'
    omega

/-- The digits of a word determine it. -/
theorem hexWord_injective : Function.Injective hexWord := by
  intro v w h
  have hchar : ∀ m < 16, ∀ n < 16, Nat.digitChar m = Nat.digitChar n → m = n := by decide
  refine UInt32.toNat_inj.1 (eq_of_digits (k := 8) v.toNat_lt w.toNat_lt fun i hi => ?_)
  have hplace := congrArg (·[7 - i]?) h
  simp only [hexWord, List.getElem?_map, List.getElem?_range (show 7 - i < 8 by omega), Option.map_some,
    Option.some.injEq, show 7 - (7 - i) = i by omega] at hplace
  exact hchar _ (Nat.mod_lt _ (by decide)) _ (Nat.mod_lt _ (by decide)) hplace

/-- So do those of a list of words. -/
theorem flatMap_hexWord_injective {vs ws : List UInt32} (h : vs.flatMap hexWord = ws.flatMap hexWord) :
    vs = ws := by
  have hne (w : UInt32) (rest : List Char) : hexWord w ++ rest ≠ [] := by
    intro hnil
    have hlength := congrArg List.length hnil
    rw [List.length_append, length_hexWord] at hlength
    exact absurd hlength (by simp)
  induction vs generalizing ws with
  | nil =>
    cases ws with
    | nil => rfl
    | cons w ws => exact absurd h.symm (hne w _)
  | cons v vs ih =>
    cases ws with
    | nil => exact absurd h (hne v _)
    | cons w ws =>
      rw [List.flatMap_cons, List.flatMap_cons] at h
      obtain ⟨hfirst, hrest⟩ := List.append_inj h ((length_hexWord v).trans (length_hexWord w).symm)
      rw [hexWord_injective hfirst, ih hrest]

end Digest

/-- The list of bytes is gathered from the front. -/
theorem Text.toList_loop (bs : ByteArray) (i : Nat) (r : List UInt8) :
    ByteArray.toList.loop bs i r = r.reverse ++ bs.data.toList.drop i := by
  induction hleft : bs.size - i generalizing i r with
  | zero =>
    have hend : ¬ i < bs.size := by omega
    have hdrop : bs.data.toList.drop i = [] := List.drop_eq_nil_of_le (not_lt.1 hend)
    rw [ByteArray.toList.loop, if_neg hend, hdrop, List.append_nil]
  | succ left ih =>
    have hi : i < bs.size := by omega
    have hi' : i < bs.data.toList.length := hi
    have hget : bs.get! i = bs.data.toList[i] := getElem!_pos bs.data i hi
    rw [ByteArray.toList.loop, if_pos hi, ih (i + 1) _ (by omega), List.reverse_cons, List.append_assoc, hget,
      List.singleton_append, List.getElem_cons_drop]

/-- The bytes of a text determine it. -/
theorem Text.bytes_injective : Function.Injective Text.bytes := by
  have hbytes (s : String) : Text.bytes s = s.toUTF8.data.toList := by
    rw [Text.bytes, ByteArray.toList, toList_loop]
    rfl
  intro s t h
  rw [hbytes, hbytes] at h
  exact String.toByteArray_inj.1 (ByteArray.ext (Array.toList_inj.1 h))

/-- **Equal fingerprints** come from equal digests. -/
theorem Digest.hexDigest_eq_iff {s t : String} :
    hexDigest s = hexDigest t ↔ sha256 (Text.bytes s) = sha256 (Text.bytes t) := by
  constructor
  · intro h
    have hlist := congrArg String.toList h
    rw [hexDigest, hexDigest, String.toList_ofList, String.toList_ofList] at hlist
    exact flatMap_hexWord_injective hlist
  · intro h
    rw [hexDigest, hexDigest]
    exact congrArg (fun words => String.ofList (words.flatMap hexWord)) h

/-! ## Objects that differ in the order of fields -/

namespace Value

variable {v w : Value} {vs ws : List Value} {fs gs : List (String × Value)}

mutual

/-- **Values are alike** if they differ in the order of fields only: lists have the same members, one by one,
and objects have the same names and, under each, alike values. Kinds of numbers are kept apart, and so are
zero and negative zero. -/
def Alike : Value → Value → Prop
  | .arr vs, w => ∃ ws, w = .arr ws ∧ AlikeAll vs ws
  | .obj fs, w => ∃ gs, w = .obj gs ∧ (∀ name, name ∈ fs.map Prod.fst ↔ name ∈ gs.map Prod.fst) ∧
      AlikeFields fs gs
  | .null, w => w = .null
  | .bool b, w => w = .bool b
  | .int n, w => w = .int n
  | .float x, w => w = .float x
  | .str s, w => w = .str s

/-- The members of lists are alike, one by one. -/
def AlikeAll : List Value → List Value → Prop
  | [], ws => ws = []
  | v :: rest, ws => ∃ w more, ws = w :: more ∧ Alike v w ∧ AlikeAll rest more

/-- Each of the fields is alike a field of the same name. -/
def AlikeFields : List (String × Value) → List (String × Value) → Prop
  | [], _ => True
  | (k, v) :: rest, gs => (∃ w, (k, w) ∈ gs ∧ Alike v w) ∧ AlikeFields rest gs

end

/-- Whether the names of the fields are different. -/
def Distinct : Value → Prop
  | .obj fs => (fs.map Prod.fst).Nodup
  | _ => True

/-- **A value as it may be written**: its fields stand in any order, but no name stands in an object twice;
its numbers are within bounds. -/
structure Written (v : Value) : Prop where
  /-- The names of the fields of every object are different. -/
  distinct : v.Throughout Distinct
  /-- Whole numbers have 64 bits, others are finite. -/
  bounded : v.Throughout Bounded

theorem alikeFields_iff_forall : AlikeFields fs gs ↔ ∀ e ∈ fs, ∃ w, (e.1, w) ∈ gs ∧ e.2.Alike w := by
  induction fs with
  | nil => simp [AlikeFields]
  | cons e rest ih =>
    obtain ⟨k, v⟩ := e
    rw [AlikeFields, ih, List.forall_mem_cons]

theorem alikeAll_iff (h : ∀ v ∈ vs, ∀ w ∈ ws, v.Alike w ↔ v.inOrder = w.inOrder) :
    AlikeAll vs ws ↔ inOrderAll vs = inOrderAll ws := by
  induction vs generalizing ws with
  | nil =>
    cases ws with
    | nil => simp [AlikeAll]
    | cons w ws => simp [AlikeAll, inOrderAll]
  | cons v vs ih =>
    cases ws with
    | nil => simp [AlikeAll, inOrderAll]
    | cons w ws =>
      have hfirst := h v List.mem_cons_self w List.mem_cons_self
      have hrest := ih fun v hv w hw => h v (List.mem_cons_of_mem _ hv) w (List.mem_cons_of_mem _ hw)
      rw [inOrderAll, inOrderAll, List.cons.injEq, ← hfirst, ← hrest, AlikeAll]
      constructor
      · rintro ⟨w', more, heq, hv, hvs⟩
        obtain ⟨rfl, rfl⟩ := List.cons.inj heq
        exact ⟨hv, hvs⟩
      · rintro ⟨hv, hvs⟩
        exact ⟨w, ws, rfl, hv, hvs⟩

/-- The fields of objects whose names are different are alike if the same values stand under the same
names, once everything is in order. -/
theorem alikeFields_iff (hf : (fs.map Prod.fst).Nodup) (hg : (gs.map Prod.fst).Nodup)
    (h : ∀ e ∈ fs, ∀ e' ∈ gs, e.2.Alike e'.2 ↔ e.2.inOrder = e'.2.inOrder) :
    (∀ name, name ∈ fs.map Prod.fst ↔ name ∈ gs.map Prod.fst) ∧ AlikeFields fs gs ↔
      Table.ofList (inOrderFields fs) = Table.ofList (inOrderFields gs) := by
  rw [Table.ofList_eq_iff (names_inOrderFields fs ▸ hf) (names_inOrderFields gs ▸ hg), alikeFields_iff_forall]
  constructor
  · rintro ⟨hnames, halike⟩ ⟨name, u⟩
    rw [mem_inOrderFields, mem_inOrderFields]
    constructor
    · rintro ⟨v, he, rfl⟩
      obtain ⟨w, he', hw⟩ := halike _ he
      exact ⟨w, he', ((h _ he _ he').1 hw).symm⟩
    · rintro ⟨w, he', rfl⟩
      obtain ⟨⟨k, v⟩, he, rfl⟩ := List.mem_map.1 ((hnames name).2 (List.mem_map_of_mem he'))
      obtain ⟨w', he'', hw⟩ := halike _ he
      -- the name stands once, so the alike field is the given one
      have hsame := List.inj_on_of_nodup_map hg he'' he' rfl
      rw [(Prod.mk.inj hsame).2] at hw
      exact ⟨v, he, (h _ he _ he').1 hw⟩
  · intro hmem
    have hnames (name : String) : name ∈ fs.map Prod.fst ↔ name ∈ gs.map Prod.fst := by
      rw [← names_inOrderFields fs, ← names_inOrderFields gs]
      simp only [List.mem_map, hmem]
    refine ⟨hnames, fun e he => ?_⟩
    obtain ⟨w, he', hw⟩ := mem_inOrderFields.1 ((hmem _).1 (mem_inOrderFields.2 ⟨e.2, he, rfl⟩))
    exact ⟨w, he', (h e he _ he').2 hw.symm⟩

/-- **Values are alike** exactly if they are the same once everything is in order. -/
theorem alike_iff {v w : Value} (hv : v.Throughout Distinct) (hw : w.Throughout Distinct) :
    v.Alike w ↔ v.inOrder = w.inOrder := by
  induction v using induction generalizing w with
  | null | bool | int | float | str =>
    rw [Alike, inOrder]
    cases w <;> simp [inOrder, eq_comm]
  | arr vs ih =>
    rw [Throughout, throughoutAll_iff] at hv
    rw [Alike, inOrder]
    cases w with
    | arr ws =>
      rw [Throughout, throughoutAll_iff] at hw
      have hall := alikeAll_iff fun v hv' w hw' => ih v hv' (hv.2 v hv') (hw.2 w hw')
      rw [inOrder, Value.arr.injEq, ← hall]
      simp
    | _ => simp [inOrder]
  | obj fs ih =>
    rw [Throughout, throughoutFields_iff] at hv
    rw [Alike, inOrder]
    cases w with
    | obj gs =>
      rw [Throughout, throughoutFields_iff] at hw
      have hfields := alikeFields_iff hv.1 hw.1 fun e he e' he' => ih e he (hv.2 e he) (hw.2 e' he')
      rw [inOrder, Value.obj.injEq, ← hfields]
      simp
    | _ => simp [inOrder]

end Value

/-! ## The fingerprint -/

/-- The text whose digest the fingerprint is. -/
def canonicalText (inputs : Fields) : String := (Value.obj inputs).compact

/-- **The fingerprint separates tables**, unless their canonical texts are a collision of the digest. -/
theorem inputsHash_eq_iff {a b : Fields} (ha : (Value.obj a).Throughout Value.Bounded)
    (hb : (Value.obj b).Throughout Value.Bounded)
    (hcollision : ¬ Digest.Collision (Text.bytes (canonicalText a)) (Text.bytes (canonicalText b))) :
    inputsHash a = inputsHash b ↔ a = b := by
  constructor
  · intro h
    have hdigest := Digest.hexDigest_eq_iff.1 h
    have hbytes : Text.bytes (canonicalText a) = Text.bytes (canonicalText b) := by
      by_contra hne
      exact hcollision ⟨hne, hdigest⟩
    have htext : canonicalText a = canonicalText b := Text.bytes_injective hbytes
    exact Value.obj.inj (Value.compact_injective ha hb htext)
  · rintro rfl
    rfl

namespace Fields

variable {fs gs : List (String × Value)}

/-- The inputs that a program has when it has put in the fields of an object as they are written. -/
def ofWritten (fs : List (String × Value)) : Fields := Table.ofList (Value.inOrderFields fs)

theorem inOrder_obj (fs : List (String × Value)) : (Value.obj fs).inOrder = .obj (ofWritten fs) := by
  rw [Value.inOrder, ofWritten]

/-- **Every table of inputs** is the one of its own fields. -/
theorem ofWritten_of_ordered {inputs : Fields} (h : (Value.obj inputs).Throughout Value.Ordered) :
    ofWritten inputs = inputs := by
  have hinOrder := Value.inOrder_of_ordered h
  rw [inOrder_obj] at hinOrder
  exact Value.obj.inj hinOrder

/-- **Objects become the same table** exactly if they are alike. -/
theorem ofWritten_eq_iff (hf : (Value.obj fs).Throughout Value.Distinct)
    (hg : (Value.obj gs).Throughout Value.Distinct) :
    ofWritten fs = ofWritten gs ↔ (Value.obj fs).Alike (.obj gs) := by
  rw [Value.alike_iff hf hg, inOrder_obj, inOrder_obj, Value.obj.injEq]

end Fields

/-- **The fingerprint separates inputs.** Two objects, written with their fields in whatever order, have the
same fingerprint exactly if they are alike, unless their canonical texts are a collision of the digest. -/
theorem inputsHash_exact {fs gs : List (String × Value)} (hf : (Value.obj fs).Written)
    (hg : (Value.obj gs).Written)
    (hcollision : ¬ Digest.Collision (Text.bytes (canonicalText (Fields.ofWritten fs)))
      (Text.bytes (canonicalText (Fields.ofWritten gs)))) :
    inputsHash (Fields.ofWritten fs) = inputsHash (Fields.ofWritten gs) ↔
      (Value.obj fs).Alike (.obj gs) := by
  have hbf := Fields.inOrder_obj fs ▸ Value.bounded_inOrder hf.bounded
  have hbg := Fields.inOrder_obj gs ▸ Value.bounded_inOrder hg.bounded
  rw [inputsHash_eq_iff hbf hbg hcollision, Fields.ofWritten_eq_iff hf.distinct hg.distinct]

/-- An object with a whole number, and with an object inside. -/
def counted : List (String × Value) :=
  [("count", .int 1), ("branch", .obj [("name", .str "main"), ("behind", .arr [.null, .float 1.0])])]

/-- The same with its fields in another order. -/
def recounted : List (String × Value) :=
  [("branch", .obj [("behind", .arr [.null, .float 1.0]), ("name", .str "main")]), ("count", .int 1)]

/-- And with a whole number in the place of the other. -/
def miscounted : List (String × Value) :=
  [("count", .int 1), ("branch", .obj [("name", .str "main"), ("behind", .arr [.null, .int 1])])]

/-- The order of fields does not change a fingerprint, but a number of another kind does. -/
theorem inputsHash_exact_counted :
    inputsHash (Fields.ofWritten counted) = inputsHash (Fields.ofWritten recounted) ∧
      inputsHash (Fields.ofWritten counted) ≠ inputsHash (Fields.ofWritten miscounted) := by
  have hfinite : (1.0 : Float).isFinite = true := by decide +kernel
  have hwritten : (Value.obj counted).Written ∧ (Value.obj recounted).Written ∧
      (Value.obj miscounted).Written := by
    refine ⟨⟨?_, ?_⟩, ⟨?_, ?_⟩, ⟨?_, ?_⟩⟩ <;>
      simp [counted, recounted, miscounted, Value.Throughout, Value.ThroughoutFields, Value.ThroughoutAll,
        Value.Distinct, Value.Bounded, Value.minInt, Value.intBound, hfinite]
  obtain ⟨hcounted, hrecounted, hmiscounted⟩ := hwritten
  have halike : (Value.obj counted).Alike (.obj recounted) :=
    (Value.alike_iff hcounted.distinct hrecounted.distinct).2 (by decide +kernel)
  have hunlike : ¬ (Value.obj counted).Alike (.obj miscounted) := fun h =>
    absurd ((Value.alike_iff hcounted.distinct hmiscounted.distinct).1 h) (by decide +kernel)
  constructor
  · refine (inputsHash_exact hcounted hrecounted fun h => h.different ?_).2 halike
    rw [(Fields.ofWritten_eq_iff hcounted.distinct hrecounted.distinct).2 halike]
  · refine fun h => hunlike ((inputsHash_exact hcounted hmiscounted fun hc => ?_).1 h)
    exact absurd hc.same (by decide +kernel)

end Stepflow
