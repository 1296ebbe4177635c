import Stepflow.Proofs.Decimal.Layout
import Stepflow.Proofs.Json.Reading

/-!
# Compact JSON text tells values apart

A text without spaces can be read in one way only: it says where it ends, unless it is that of a number,
and then anything that is no part of a number ends it (`Value.eq_of_compact_append`). So different values
have different compact texts (`Value.compact_injective`).

The first character says what kind of value it is. What a list or an object consists of is found in turn,
from the commas between and the bracket behind. Numbers are told apart by their own texts; a whole number
has neither a point nor an exponent, and a floating-point number has one of them.
-/

namespace Stepflow

open Decimal Text

variable {c : Char} {r s : List Char}

/-! ## Numbers -/

namespace Json

/-- Different whole numbers have different texts. -/
theorem toString_int_injective : Function.Injective (toString : Int → String) := by
  -- the digits of a number do not begin with a sign
  have hsign (m n : Nat) : (toString (Int.ofNat m)).toList ≠ (toString (Int.negSucc n)).toList := by
    intro h
    rw [toList_toString_ofNat, toList_toString_negSucc] at h
    have hdigit : isDigit '-' = true := isDigit_of_mem_toDigits (n := m) (h ▸ List.mem_cons_self)
    exact absurd hdigit (by decide)
  intro m n h
  have hlist := congrArg String.toList h
  cases m with
  | ofNat m =>
    cases n with
    | ofNat n =>
      rw [toList_toString_ofNat, toList_toString_ofNat] at hlist
      rw [eq_of_toDigits hlist]
    | negSucc n => exact absurd hlist (hsign m n)
  | negSucc m =>
    cases n with
    | ofNat n => exact absurd hlist.symm (hsign n m)
    | negSucc n =>
      rw [toList_toString_negSucc, toList_toString_negSucc] at hlist
      rw [Nat.succ_injective (eq_of_toDigits (List.cons.inj hlist).2)]

/-- A whole number is written with digits behind a sign. -/
theorem mem_toString_int {n : Int} (h : c ∈ (toString n).toList) : c = '-' ∨ isDigit c = true := by
  cases n with
  | ofNat n =>
    rw [toList_toString_ofNat] at h
    exact .inr (isDigit_of_mem_toDigits h)
  | negSucc n =>
    rw [toList_toString_negSucc] at h
    exact (List.mem_cons.1 h).imp_right isDigit_of_mem_toDigits

/-- No floating-point number is written like a whole number. -/
theorem toString_int_ne_render (n : Int) (x : Float) : toString n ≠ layout.render x := by
  intro h
  have hplain {c : Char} (hc : c ∈ (layout.render x).toList) : c = '-' ∨ isDigit c = true :=
    mem_toString_int (h ▸ hc)
  rcases render_marked layout x with hpoint | hexponent
  · exact absurd (hplain hpoint) (by decide)
  · exact absurd (hplain hexponent) (by decide)

end Json

namespace Value

variable {v w : Value}

/-- What may follow the text of a value: anything that does not go on with a number. -/
def Stops (r : List Char) : Prop := ∀ c ∈ r.head?, isNumberChar c = false

theorem stops_nil : Stops [] := fun _ hc => absurd hc (by simp)

theorem stops_cons (h : isNumberChar c = false) : Stops (c :: r) := by
  rintro _ ⟨⟩
  exact h

/-! ## The first character -/

/-- The kinds of values that the first character of a text tells apart. -/
inductive Kind where
  /-- The absent value. -/
  | null
  /-- A truth value. -/
  | bool
  /-- A number of either kind. -/
  | number
  /-- A text. -/
  | text
  /-- A list. -/
  | list
  /-- An object. -/
  | object
  deriving DecidableEq

/-- The kind of a value. -/
def kind : Value → Kind
  | .null => .null
  | .bool _ => .bool
  | .int _ | .float _ => .number
  | .str _ => .text
  | .arr _ => .list
  | .obj _ => .object

/-- The kind of the values whose texts begin with a character. -/
def Kind.ofChar? (c : Char) : Option Kind :=
  if c = 'n' then some .null
  else if c = 't' ∨ c = 'f' then some .bool
  else if c = '"' then some .text
  else if c = '[' then some .list
  else if c = '\x7b' then some .object
  else if c = '-' ∨ isDigit c then some .number
  else none

theorem Kind.ofChar?_number (h : c = '-' ∨ isDigit c = true) : ofChar? c = some .number := by
  have hother (d : Char) (hd : isDigit d = false ∧ d ≠ '-') : c ≠ d := by
    rintro rfl
    rcases h with h | h
    · exact hd.2 h
    · exact absurd h (by simp [hd.1])
  rw [ofChar?, if_neg (hother 'n' (by decide)),
    if_neg (not_or.2 ⟨hother 't' (by decide), hother 'f' (by decide)⟩), if_neg (hother '"' (by decide)),
    if_neg (hother '[' (by decide)), if_neg (hother '\x7b' (by decide)), if_pos h]

/-! ## Lists -/

section Separated

variable {α : Type} {f : α → List Char} {as bs : List α} {close : Char}

/-- Texts with commas between them. -/
def separated (f : α → List Char) : List α → List Char
  | [] => []
  | a :: rest => f a ++ rest.flatMap fun b => ',' :: f b

/-- **The texts of some things are determined**, whatever stands behind them, and tell them from others. -/
def Determined (f : α → List Char) (as bs : List α) : Prop :=
  ∀ a ∈ as, ∀ b ∈ bs, ∀ {r s : List Char}, Stops r → Stops s → f a ++ r = f b ++ s → a = b ∧ r = s

theorem Determined.tail {a b : α} (h : Determined f (a :: as) (b :: bs)) : Determined f as bs :=
  fun a ha b hb => h a (List.mem_cons_of_mem _ ha) b (List.mem_cons_of_mem _ hb)

theorem stops_tails (hclose : isNumberChar close = false) :
    Stops ((as.flatMap fun a => ',' :: f a) ++ close :: r) := by
  cases as with
  | nil => exact stops_cons hclose
  | cons a rest => exact stops_cons (by decide)

/-- Texts behind commas are determined, if each of them is. -/
theorem eq_of_tails (hclose : isNumberChar close = false) (hcomma : close ≠ ',')
    (hread : Determined f as bs)
    (h : (as.flatMap fun a => ',' :: f a) ++ close :: r = (bs.flatMap fun b => ',' :: f b) ++ close :: s) :
    as = bs ∧ r = s := by
  induction as generalizing bs with
  | nil =>
    cases bs with
    | nil => exact ⟨rfl, (List.cons.inj h).2⟩
    | cons b bs => exact absurd (List.cons.inj h).1 hcomma
  | cons a as ih =>
    cases bs with
    | nil => exact absurd (List.cons.inj h).1.symm hcomma
    | cons b bs =>
      rw [List.flatMap_cons, List.flatMap_cons, List.cons_append, List.cons_append, List.append_assoc,
        List.append_assoc] at h
      obtain ⟨rfl, hrest⟩ := hread a List.mem_cons_self b List.mem_cons_self (stops_tails hclose)
        (stops_tails hclose) (List.cons.inj h).2
      obtain ⟨rfl, hr⟩ := ih hread.tail hrest
      exact ⟨rfl, hr⟩

/-- **Texts with commas between them** are determined, if none of them begins with the character that ends
the list. -/
theorem eq_of_separated (hclose : isNumberChar close = false) (hcomma : close ≠ ',')
    (hstart : ∀ a, a ∈ as ∨ a ∈ bs → ∃ c rest, f a = c :: rest ∧ c ≠ close)
    (hread : Determined f as bs)
    (h : separated f as ++ close :: r = separated f bs ++ close :: s) : as = bs ∧ r = s := by
  cases as with
  | nil =>
    cases bs with
    | nil => exact ⟨rfl, (List.cons.inj h).2⟩
    | cons b bs =>
      obtain ⟨c, rest, hb, hc⟩ := hstart b (.inr List.mem_cons_self)
      simp only [separated, hb] at h
      exact absurd (List.cons.inj h).1.symm hc
  | cons a as =>
    cases bs with
    | nil =>
      obtain ⟨c, rest, ha, hc⟩ := hstart a (.inl List.mem_cons_self)
      simp only [separated, ha] at h
      exact absurd (List.cons.inj h).1 hc
    | cons b bs =>
      rw [separated, separated, List.append_assoc, List.append_assoc] at h
      obtain ⟨rfl, hrest⟩ := hread a List.mem_cons_self b List.mem_cons_self (stops_tails hclose)
        (stops_tails hclose) h
      obtain ⟨rfl, hr⟩ := eq_of_tails hclose hcomma hread.tail hrest
      exact ⟨rfl, hr⟩

end Separated

/-! ## The parts of a text -/

/-- The text of a field. -/
def fieldText (e : String × Value) : List Char := (Json.quote e.1).toList ++ ':' :: e.2.compact.toList

theorem toList_quote (t : String) (r : List Char) :
    (Json.quote t).toList ++ r = '"' :: (t.toList.flatMap Json.encodeChar ++ '"' :: r) := by
  rw [Json.quote, String.toList_ofList, List.cons_append, List.append_assoc]
  rfl

theorem toList_compactItems (vs : List Value) :
    (compactItems vs).toList = separated (fun v => v.compact.toList) vs := by
  induction vs with
  | nil => rw [compactItems]; rfl
  | cons v rest ih =>
    cases rest with
    | nil => simp [compactItems, separated]
    | cons w rest => simp [compactItems, separated, ih]

theorem toList_compactFields (fs : List (String × Value)) :
    (compactFields fs).toList = separated fieldText fs := by
  induction fs with
  | nil => rw [compactFields]; rfl
  | cons e rest ih =>
    obtain ⟨k, v⟩ := e
    cases rest with
    | nil => simp [compactFields, separated, fieldText]
    | cons e rest => simp [compactFields, separated, fieldText, ih]

theorem toList_compact_arr (vs : List Value) : (compact (.arr vs)).toList =
    '[' :: (separated (fun v => v.compact.toList) vs ++ [']']) := by
  rw [compact, String.toList_append, String.toList_append, toList_compactItems]
  rfl

theorem toList_compact_obj (fs : List (String × Value)) : (compact (.obj fs)).toList =
    '\x7b' :: (separated fieldText fs ++ ['\x7d']) := by
  rw [compact, String.toList_append, String.toList_append, toList_compactFields]
  rfl

/-- **The first character** says what kind of value a text is of. -/
theorem compact_head (hv : v.Throughout Bounded) :
    ∃ c rest, v.compact.toList = c :: rest ∧ Kind.ofChar? c = some v.kind := by
  cases v with
  | null => exact ⟨'n', ['u', 'l', 'l'], by rw [compact]; rfl, rfl⟩
  | bool b =>
    cases b with
    | true => exact ⟨'t', ['r', 'u', 'e'], by rw [compact]; rfl, rfl⟩
    | false => exact ⟨'f', ['a', 'l', 's', 'e'], by rw [compact]; rfl, rfl⟩
  | int n =>
    have hne : (toString n).toList ≠ [] := by
      cases n with
      | ofNat n =>
        rw [Json.toList_toString_ofNat]
        exact Nat.toDigits_ne_nil
      | negSucc n =>
        rw [Json.toList_toString_negSucc]
        exact List.cons_ne_nil _ _
    obtain ⟨c, rest, hhead⟩ := List.exists_cons_of_ne_nil hne
    have hc := Json.mem_toString_int (n := n) (hhead ▸ List.mem_cons_self)
    exact ⟨c, rest, by rw [compact]; exact hhead, Kind.ofChar?_number hc⟩
  | float x =>
    have hfinite : x.isFinite = true := by
      rw [Throughout] at hv
      exact hv
    obtain ⟨c, rest, hhead, hc⟩ := render_head Json.layout x
    refine ⟨c, rest, ?_, Kind.ofChar?_number hc⟩
    rw [compact, scalarText, if_pos hfinite, hhead]
  | str t => exact ⟨'"', _, by rw [compact, scalarText, Json.quote, String.toList_ofList], rfl⟩
  | arr vs => exact ⟨'[', _, toList_compact_arr vs, rfl⟩
  | obj fs => exact ⟨'\x7b', _, toList_compact_obj fs, rfl⟩

/-! ## Reading in one way only -/

theorem compact_int (n : Int) : compact (.int n) = toString n := by rw [compact, scalarText]

theorem compact_float {x : Float} (h : (Value.float x).Throughout Bounded) :
    compact (.float x) = Json.layout.render x := by
  rw [Throughout] at h
  have hfinite : x.isFinite = true := h
  rw [compact, scalarText, if_pos hfinite]

theorem isNumberChar_compact (hv : v.Throughout Bounded) (hk : v.kind = .number) :
    ∀ c ∈ v.compact.toList, isNumberChar c = true := by
  intro c hc
  cases v with
  | int n =>
    rw [compact_int] at hc
    rcases Json.mem_toString_int hc with rfl | hdigit
    · rfl
    · exact isNumberChar_of_isDigit hdigit
  | float x =>
    rw [compact_float hv] at hc
    exact isNumberChar_render Json.layout x c hc
  | _ => contradiction

/-- Different numbers have different texts. -/
theorem eq_of_compact_number (hv : v.Throughout Bounded) (hw : w.Throughout Bounded) (hkv : v.kind = .number)
    (hkw : w.kind = .number) (h : v.compact = w.compact) : v = w := by
  cases v with
  | int m =>
    cases w with
    | int n =>
      rw [compact_int, compact_int] at h
      rw [Json.toString_int_injective h]
    | float y =>
      rw [compact_int, compact_float hw] at h
      exact absurd h (Json.toString_int_ne_render m y)
    | _ => contradiction
  | float x =>
    cases w with
    | int n =>
      rw [compact_int, compact_float hv] at h
      exact absurd h.symm (Json.toString_int_ne_render n x)
    | float y =>
      rw [compact_float hv, compact_float hw] at h
      rw [Json.layout.render_injective h]
    | _ => contradiction
  | _ => contradiction

/-- A quoted text ends at its closing quote. -/
theorem eq_of_quote_append {t u : String} (h : (Json.quote t).toList ++ r = (Json.quote u).toList ++ s) :
    t = u ∧ r = s := by
  rw [toList_quote, toList_quote] at h
  have hread := Json.readText?_quoted t r
  rw [(List.cons.inj h).2, Json.readText?_quoted u s, Option.some.injEq, Prod.mk.injEq,
    Option.some.injEq] at hread
  exact ⟨hread.1.symm, hread.2.symm⟩

/-- Truth values are determined. -/
theorem eq_of_bool_append {a b : Bool}
    (h : (compact (.bool a)).toList ++ r = (compact (.bool b)).toList ++ s) : a = b ∧ r = s := by
  have hhead (b : Bool) : (compact (.bool b)).toList.head? = some (if b then 't' else 'f') := by
    cases b <;> rw [compact] <;> rfl
  have hab : a = b := by
    have heq := congrArg List.head? h
    rw [List.head?_append, List.head?_append, hhead, hhead, Option.some_or, Option.some_or] at heq
    revert heq
    cases a <;> cases b <;> decide
  subst hab
  exact ⟨rfl, List.append_cancel_left h⟩

/-- A list is determined, if its members are. -/
theorem eq_of_arr_append {vs ws : List Value} (hv : ∀ v ∈ vs, v.Throughout Bounded)
    (hw : ∀ w ∈ ws, w.Throughout Bounded) (hread : Determined (fun v => v.compact.toList) vs ws)
    (h : (compact (.arr vs)).toList ++ r = (compact (.arr ws)).toList ++ s) : vs = ws ∧ r = s := by
  rw [toList_compact_arr, toList_compact_arr, List.cons_append, List.cons_append, List.append_assoc,
    List.append_assoc] at h
  have hstart : ∀ u, u ∈ vs ∨ u ∈ ws → ∃ c rest, u.compact.toList = c :: rest ∧ c ≠ ']' := by
    intro u hu
    obtain ⟨c, rest, hhead, hc⟩ := compact_head (hu.elim (hv u) (hw u))
    refine ⟨c, rest, hhead, ?_⟩
    rintro rfl
    exact absurd hc (by simp [Kind.ofChar?, isDigit])
  exact eq_of_separated (by decide) (by decide) hstart hread (List.cons.inj h).2

/-- So is an object, if the values of its fields are. -/
theorem eq_of_obj_append {fs gs : List (String × Value)} (hread : Determined (fun v => v.compact.toList)
    (fs.map Prod.snd) (gs.map Prod.snd))
    (h : (compact (.obj fs)).toList ++ r = (compact (.obj gs)).toList ++ s) : fs = gs ∧ r = s := by
  rw [toList_compact_obj, toList_compact_obj, List.cons_append, List.cons_append, List.append_assoc,
    List.append_assoc] at h
  have hstart : ∀ e, e ∈ fs ∨ e ∈ gs → ∃ c rest, fieldText e = c :: rest ∧ c ≠ '\x7d' :=
    fun e _ => ⟨'"', _, toList_quote e.1 _, by decide⟩
  have hfields : Determined fieldText fs gs := by
    intro e he e' he' r s hr hs h
    rw [fieldText, fieldText, List.append_assoc, List.append_assoc] at h
    obtain ⟨hname, hrest⟩ := eq_of_quote_append h
    obtain ⟨hvalue, hrest⟩ := hread e.2 (List.mem_map_of_mem he) e'.2 (List.mem_map_of_mem he') hr hs
      (List.cons.inj hrest).2
    exact ⟨Prod.ext hname hvalue, hrest⟩
  exact eq_of_separated (by decide) (by decide) hstart hfields (List.cons.inj h).2

/-- Texts of values of different kinds do not begin alike. -/
theorem kind_eq_of_compact_append (hv : v.Throughout Bounded) (hw : w.Throughout Bounded)
    (h : v.compact.toList ++ r = w.compact.toList ++ s) : v.kind = w.kind := by
  obtain ⟨c, cs, hvc, hcv⟩ := compact_head hv
  obtain ⟨d, ds, hwd, hdw⟩ := compact_head hw
  rw [hvc, hwd] at h
  rw [(List.cons.inj h).1, hdw] at hcv
  exact (Option.some.inj hcv).symm

/-- **The text of a value can be read in one way only**, whatever follows it. The induction is on the value:
its members and its fields are determined, so the list of them is. -/
theorem eq_of_compact_append {v w : Value} (hv : v.Throughout Bounded) (hw : w.Throughout Bounded)
    {r s : List Char} (hr : Stops r) (hs : Stops s) (h : v.compact.toList ++ r = w.compact.toList ++ s) :
    v = w ∧ r = s := by
  induction v using induction generalizing w r s with
  | int | float =>
    have hkind : w.kind = .number := (kind_eq_of_compact_append hv hw h).symm
    obtain ⟨htext, hrest⟩ := eq_of_append_of_stop (isNumberChar_compact hv rfl)
      (isNumberChar_compact hw hkind) hr hs h
    exact ⟨eq_of_compact_number hv hw rfl hkind (String.toList_injective htext), hrest⟩
  | null =>
    have hkind := kind_eq_of_compact_append hv hw h
    cases w with
    | null => exact ⟨rfl, List.append_cancel_left h⟩
    | _ => cases hkind
  | bool a =>
    have hkind := kind_eq_of_compact_append hv hw h
    cases w with
    | bool b => exact (eq_of_bool_append h).imp_left (congrArg Value.bool)
    | _ => cases hkind
  | str t =>
    have hkind := kind_eq_of_compact_append hv hw h
    cases w with
    | str u =>
      rw [compact, compact, scalarText, scalarText] at h
      exact (eq_of_quote_append h).imp_left (congrArg Value.str)
    | _ => cases hkind
  | arr vs ih =>
    have hkind := kind_eq_of_compact_append hv hw h
    cases w with
    | arr ws =>
      rw [Throughout, throughoutAll_iff] at hv hw
      refine (eq_of_arr_append hv.2 hw.2 ?_ h).imp_left (congrArg Value.arr)
      intro u hu u' hu' r s hr hs h
      exact ih u hu (hv.2 u hu) (hw.2 u' hu') hr hs h
    | _ => cases hkind
  | obj fs ih =>
    have hkind := kind_eq_of_compact_append hv hw h
    cases w with
    | obj gs =>
      rw [Throughout, throughoutFields_iff] at hv hw
      refine (eq_of_obj_append ?_ h).imp_left (congrArg Value.obj)
      intro u hu u' hu' r s hr hs h
      obtain ⟨e, he, rfl⟩ := List.mem_map.1 hu
      obtain ⟨e', he', rfl⟩ := List.mem_map.1 hu'
      exact ih e he (hv.2 e he) (hw.2 e' he') hr hs h
    | _ => cases hkind

/-- **Different values have different compact texts.** -/
theorem compact_injective (hv : v.Throughout Bounded) (hw : w.Throughout Bounded)
    (h : v.compact = w.compact) : v = w := by
  have hlist : v.compact.toList ++ [] = w.compact.toList ++ [] := by rw [h]
  exact (eq_of_compact_append hv hw stops_nil stops_nil hlist).1

end Value

end Stepflow
