import Stepflow.Table

/-!
# Values

The data that steps exchange: null, truth values, whole numbers, floating-point numbers, texts, lists
and objects. Whole numbers and floating-point numbers are two kinds, so `1` is not `1.0`; every whole
number of a document lies between `-2^63` and `2^64 - 1`, and every floating-point number is finite.

Two equalities are kept apart. Equality of terms tells `0.0` from `-0.0`; `Value.same` is the
equality a reader means, where two floating-point numbers are compared as numbers.
-/

namespace Stepflow

/-- A piece of data. The fields of an object are a `Table`. -/
inductive Value where
  /-- The absent value. -/
  | null
  /-- A truth value. -/
  | bool (b : Bool)
  /-- A whole number. -/
  | int (n : Int)
  /-- A finite floating-point number. -/
  | float (x : Float)
  /-- A text. -/
  | str (s : String)
  /-- A list. -/
  | arr (items : List Value)
  /-- Named values in the order of their names. -/
  | obj (fields : List (String × Value))
  deriving Inhabited

/-- Named values: the fields of an object, the inputs of a run, the keyword arguments of a call. -/
abbrev Fields := Table Value

/-- Two floating-point numbers are the same term exactly if they have the same bits. -/
theorem Float.eq_of_toBits_eq {x y : Float} (h : x.toBits = y.toBits) : x = y := by
  obtain ⟨a, ha⟩ := x
  obtain ⟨b, hb⟩ := y
  have h : a = b := h
  subst h
  rfl

/-- Whether two floating-point numbers have the same bits. -/
def Float.decEq (x y : Float) : Decidable (x = y) :=
  if h : x.toBits = y.toBits then isTrue (Float.eq_of_toBits_eq h)
  else isFalse fun e => h (e ▸ rfl)

instance Float.decidableEq : DecidableEq Float := Float.decEq

namespace Value

/-- The smallest whole number a value can hold. -/
def minInt : Int := -Int.ofNat (Nat.pow 2 63)

/-- The first whole number above those a value can hold. -/
def intBound : Int := Int.ofNat (Nat.pow 2 64)

mutual

/-- Decides whether two values are the same term. -/
def decEq : (a b : Value) → Decidable (a = b)
  | .null, .null => isTrue rfl
  | .bool a, .bool b =>
    if h : a = b then isTrue (h ▸ rfl) else isFalse fun e => h (Value.bool.inj e)
  | .int a, .int b =>
    if h : a = b then isTrue (h ▸ rfl) else isFalse fun e => h (Value.int.inj e)
  | .float a, .float b =>
    if h : a = b then isTrue (h ▸ rfl) else isFalse fun e => h (Value.float.inj e)
  | .str a, .str b =>
    if h : a = b then isTrue (h ▸ rfl) else isFalse fun e => h (Value.str.inj e)
  | .arr a, .arr b =>
    match decEqList a b with
    | isTrue h => isTrue (h ▸ rfl)
    | isFalse h => isFalse fun e => h (Value.arr.inj e)
  | .obj a, .obj b =>
    match decEqFields a b with
    | isTrue h => isTrue (h ▸ rfl)
    | isFalse h => isFalse fun e => h (Value.obj.inj e)
  | .null, .bool _ | .null, .int _ | .null, .float _ | .null, .str _ | .null, .arr _
  | .null, .obj _ | .bool _, .null | .bool _, .int _ | .bool _, .float _ | .bool _, .str _
  | .bool _, .arr _ | .bool _, .obj _ | .int _, .null | .int _, .bool _ | .int _, .float _
  | .int _, .str _ | .int _, .arr _ | .int _, .obj _ | .float _, .null | .float _, .bool _
  | .float _, .int _ | .float _, .str _ | .float _, .arr _ | .float _, .obj _ | .str _, .null
  | .str _, .bool _ | .str _, .int _ | .str _, .float _ | .str _, .arr _ | .str _, .obj _
  | .arr _, .null | .arr _, .bool _ | .arr _, .int _ | .arr _, .float _ | .arr _, .str _
  | .arr _, .obj _ | .obj _, .null | .obj _, .bool _ | .obj _, .int _ | .obj _, .float _
  | .obj _, .str _ | .obj _, .arr _ => isFalse (by intro h; cases h)

/-- Decides whether two lists of values are the same. -/
def decEqList : (a b : List Value) → Decidable (a = b)
  | [], [] => isTrue rfl
  | [], _ :: _ | _ :: _, [] => isFalse (by intro h; cases h)
  | a :: as, b :: bs =>
    match decEq a b, decEqList as bs with
    | isTrue h, isTrue h' => isTrue (h ▸ h' ▸ rfl)
    | isFalse h, _ => isFalse fun e => h (List.cons.inj e).1
    | _, isFalse h => isFalse fun e => h (List.cons.inj e).2

/-- Decides whether two lists of named values are the same. -/
def decEqFields : (a b : List (String × Value)) → Decidable (a = b)
  | [], [] => isTrue rfl
  | [], _ :: _ | _ :: _, [] => isFalse (by intro h; cases h)
  | (k, a) :: as, (l, b) :: bs =>
    if hk : k = l then
      match decEq a b, decEqFields as bs with
      | isTrue h, isTrue h' => isTrue (hk ▸ h ▸ h' ▸ rfl)
      | isFalse h, _ => isFalse fun e => h (Prod.mk.inj (List.cons.inj e).1).2
      | _, isFalse h => isFalse fun e => h (List.cons.inj e).2
    else isFalse fun e => hk (Prod.mk.inj (List.cons.inj e).1).1

end

instance : DecidableEq Value := decEq

mutual

/-- The equality a reader means: like equality of terms, but floating-point numbers are compared as
numbers, so that `0.0` and `-0.0` are the same. -/
def same : Value → Value → Bool
  | .null, .null => true
  | .bool a, .bool b => a == b
  | .int a, .int b => a == b
  | .float a, .float b => a == b
  | .str a, .str b => a == b
  | .arr a, .arr b => sameList a b
  | .obj a, .obj b => sameFields a b
  | _, _ => false

/-- Two lists are the same if their members are, one by one. -/
def sameList : List Value → List Value → Bool
  | [], [] => true
  | a :: as, b :: bs => same a b && sameList as bs
  | _, _ => false

/-- Two objects are the same if they have the same names with the same values. -/
def sameFields : List (String × Value) → List (String × Value) → Bool
  | [], [] => true
  | (k, a) :: as, (l, b) :: bs => k == l && same a b && sameFields as bs
  | _, _ => false

end

/-- The value of a number that may be beyond the finite ones, which have no value but null. -/
def ofFloat (x : Float) : Value := if x.isFinite then .float x else .null

/-- Whether a condition with this value holds: null, false, zero and everything empty do not. -/
def truthy : Value → Bool
  | .null => false
  | .bool b => b
  | .int n => n ≠ 0
  | .float x => x != 0.0
  | .str s => s ≠ ""
  | .arr items => !items.isEmpty
  | .obj fields => !fields.isEmpty

/-- The text, if the value is one. -/
def str? : Value → Option String
  | .str s => some s
  | _ => none

/-- Whether the value is absent. -/
def isNull : Value → Bool
  | .null => true
  | _ => false

/-- The field of an object. -/
def field? : Value → String → Option Value
  | .obj fields, name => Table.get? fields name
  | _, _ => none

mutual

/-- How deeply lists and objects are nested. -/
def depth : Value → Nat
  | .arr items => depthList items + 1
  | .obj fields => depthFields fields + 1
  | _ => 0

/-- The greatest depth in a list. -/
def depthList : List Value → Nat
  | [] => 0
  | v :: rest => max (depth v) (depthList rest)

/-- The greatest depth among named values. -/
def depthFields : List (String × Value) → Nat
  | [] => 0
  | (_, v) :: rest => max (depth v) (depthFields rest)

end

end Value

end Stepflow
