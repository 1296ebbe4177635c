import Stepflow.Proofs.Decimal.Shortest

/-!
# The text of a number tells numbers apart

The text of a decimal can be read: its digits, its point and its exponent give the value of the decimal back
(`Spells.reading`), in whatever layout it is written (`spells_magnitude`). As different numbers have different
decimals, they have different texts (`Layout.render_injective`).

A text of this kind consists of digits, signs, points and the letter of an exponent, and there is a point or
this letter in it; so it is no text of a whole number.
-/

namespace Stepflow.Decimal

open Text

variable {l : Layout} {d : Digits} {x y : Float} {cs whole fraction rest : List Char} {n : Nat} {c : Char}

/-! ## Reading a decimal -/

/-- The exponent that a text begins with, and zero if it begins with none. -/
def exponentOf : List Char → Int
  | 'e' :: cs => (readExponent? cs).getD 0
  | _ => 0

/-- The value of the decimal that a text writes. -/
def reading (cs : List Char) : Rat :=
  let (whole, rest) := spanDigits cs
  let (fraction, rest) := match rest with
    | '.' :: more => spanDigits more
    | _ => ([], rest)
  digitsValue (whole ++ fraction) * 10 ^ (exponentOf rest - fraction.length)

/-- A decimal with a point is read from its digits. -/
theorem reading_pointed (hwhole : ∀ c ∈ whole, isDigit c = true)
    (hfraction : ∀ c ∈ fraction, isDigit c = true) (hrest : ∀ c ∈ rest.head?, isDigit c = false) :
    reading (whole ++ '.' :: (fraction ++ rest)) =
      digitsValue (whole ++ fraction) * 10 ^ (exponentOf rest - fraction.length) := by
  have hpoint : ∀ c ∈ ('.' :: (fraction ++ rest)).head?, isDigit c = false := by
    rintro c ⟨⟩
    rfl
  simp only [reading, spanDigits_append hwhole hpoint, spanDigits_append hfraction hrest]

/-- So is one without a point. -/
theorem reading_plain (hwhole : ∀ c ∈ whole, isDigit c = true)
    (hrest : ∀ c ∈ rest.head?, isDigit c = false ∧ c ≠ '.') :
    reading (whole ++ rest) = digitsValue whole * 10 ^ exponentOf rest := by
  have hstop : ∀ c ∈ rest.head?, isDigit c = false := fun c hc => (hrest c hc).1
  unfold reading
  rw [spanDigits_append hwhole hstop]
  dsimp only
  split
  · next more => exact absurd rfl (hrest '.' rfl).2
  · rw [List.append_nil, List.length_nil, Nat.cast_zero, sub_zero]

/-! ## Digits -/

theorem digitsValue_append (as bs : List Char) :
    digitsValue (as ++ bs) = 10 ^ bs.length * digitsValue as + digitsValue bs := by
  have h : digitsValue (as ++ bs) = Nat.ofDigitChars 10 bs (digitsValue as) :=
    Nat.ofDigitChars_append 0
  rw [h, Nat.ofDigitChars_eq_ofDigitChars_zero]
  rfl

theorem digitsValue_zeros (n : Nat) : digitsValue (List.replicate n '0') = 0 := by
  have h : digitsValue (List.replicate n '0') = 10 ^ n * 0 := Nat.ofDigitChars_replicate_zero
  rw [h, Nat.mul_zero]

theorem digitsValue_toDigits (n : Nat) : digitsValue (Nat.toDigits 10 n) = n := Nat.ofDigitChars_ten_toDigits

theorem isDigit_zeros : ∀ c ∈ List.replicate n '0', isDigit c = true := fun c hc => by
  rw [List.eq_of_mem_replicate hc]
  rfl

theorem readExponent?_toDigits (n : Nat) : readExponent? (Nat.toDigits 10 n) = some (n : Int) := by
  have hall : (Nat.toDigits 10 n).all isDigit = true :=
    List.all_eq_true.2 fun c hc => isDigit_of_mem_toDigits hc
  have hne : (Nat.toDigits 10 n).isEmpty = false := by simp [Nat.toDigits_ne_nil]
  unfold readExponent?
  split
  · next rest h => exact absurd (isDigit_of_mem_toDigits (h ▸ List.mem_cons_self)) (by decide)
  · next rest h => exact absurd (isDigit_of_mem_toDigits (h ▸ List.mem_cons_self)) (by decide)
  · rw [hall, hne, digitsValue_toDigits]
    rfl

/-- An exponent with its sign. -/
def signedText (plus : Bool) (e : Int) : List Char :=
  (if e < 0 then "-" else if plus then "+" else "").toList ++ Nat.toDigits 10 e.natAbs

/-- A signed exponent is read as it is meant. -/
theorem readExponent?_signedText (plus : Bool) (e : Int) : readExponent? (signedText plus e) = some e := by
  have hall : (Nat.toDigits 10 e.natAbs).all isDigit = true :=
    List.all_eq_true.2 fun c hc => isDigit_of_mem_toDigits hc
  have hne : (Nat.toDigits 10 e.natAbs).isEmpty = false := by simp [Nat.toDigits_ne_nil]
  have hread := readExponent?_toDigits e.natAbs
  unfold signedText
  split
  · next hneg => simp [readExponent?, hall, hne, digitsValue_toDigits, abs_of_neg hneg]
  · next hnonneg =>
    have hvalue : (e.natAbs : Int) = e := by omega
    rw [hvalue] at hread
    split
    · simp [readExponent?, hall, hne, digitsValue_toDigits, abs_of_nonneg (not_lt.1 hnonneg)]
    · exact hread

/-! ## The forms of a decimal -/

/-- A text after the digits of a decimal, and the power of ten that it scales them with. -/
inductive Scales : List Char → Int → Prop where
  /-- There may be none. -/
  | none : Scales [] 0
  /-- An exponent scales with its value. -/
  | exponent (plus : Bool) (e : Int) : Scales ('e' :: signedText plus e) e

/-- **A text that writes a decimal** with this value: digits with a point between them, an exponent after
them, or both. -/
inductive Spells : List Char → Rat → Prop where
  /-- There is a point. -/
  | pointed {whole fraction rest : List Char} {e : Int} (hne : whole ≠ [])
      (hwhole : ∀ c ∈ whole, isDigit c = true) (hfraction : ∀ c ∈ fraction, isDigit c = true)
      (h : Scales rest e) :
      Spells (whole ++ '.' :: (fraction ++ rest))
        (digitsValue (whole ++ fraction) * 10 ^ (e - fraction.length))
  /-- There is none, but an exponent. -/
  | plain {whole : List Char} (hne : whole ≠ []) (hwhole : ∀ c ∈ whole, isDigit c = true)
      (plus : Bool) (e : Int) :
      Spells (whole ++ 'e' :: signedText plus e) (digitsValue whole * 10 ^ e)

theorem Scales.exponentOf {e : Int} (h : Scales rest e) : exponentOf rest = e := by
  cases h with
  | none => rfl
  | exponent plus e => rw [Decimal.exponentOf, readExponent?_signedText, Option.getD_some]

theorem Scales.head {e : Int} (h : Scales rest e) : ∀ c ∈ rest.head?, isDigit c = false := by
  cases h with
  | none => exact fun c hc => absurd hc (by simp)
  | exponent plus e =>
    rintro c ⟨⟩
    rfl

/-- The value of a decimal is read from its text. -/
theorem Spells.reading {r : Rat} (h : Spells cs r) : reading cs = r := by
  cases h with
  | pointed hne hwhole hfraction h => rw [reading_pointed hwhole hfraction h.head, h.exponentOf]
  | plain hne hwhole plus e =>
    have hstop : ∀ c ∈ ('e' :: signedText plus e).head?, isDigit c = false ∧ c ≠ '.' := by
      rintro c ⟨⟩
      exact ⟨rfl, by decide⟩
    rw [reading_plain hwhole hstop, (Scales.exponent plus e).exponentOf]

/-- It begins with a digit. -/
theorem Spells.head {r : Rat} (h : Spells cs r) : ∃ c rest, cs = c :: rest ∧ isDigit c = true := by
  cases h with
  | pointed hne hwhole =>
    obtain ⟨c, more, rfl⟩ := List.exists_cons_of_ne_nil hne
    exact ⟨c, _, rfl, hwhole c List.mem_cons_self⟩
  | plain hne hwhole =>
    obtain ⟨c, more, rfl⟩ := List.exists_cons_of_ne_nil hne
    exact ⟨c, _, rfl, hwhole c List.mem_cons_self⟩

/-- There is a point or an exponent in it. -/
theorem Spells.marked {r : Rat} (h : Spells cs r) : '.' ∈ cs ∨ 'e' ∈ cs := by
  cases h with
  | pointed => exact .inl (List.mem_append_right _ List.mem_cons_self)
  | plain => exact .inr (List.mem_append_right _ List.mem_cons_self)

/-- The characters of numbers. -/
def isNumberChar (c : Char) : Bool := isDigit c || c == '-' || c == '+' || c == '.' || c == 'e'

theorem isNumberChar_of_isDigit (h : isDigit c = true) : isNumberChar c = true := by
  simp [isNumberChar, h]

theorem isNumberChar_signedText (plus : Bool) (e : Int) :
    ∀ c ∈ signedText plus e, isNumberChar c = true := by
  intro c hc
  rcases List.mem_append.1 hc with hsign | hdigit
  · split_ifs at hsign
    · obtain rfl : c = '-' := by simpa using hsign
      rfl
    · obtain rfl : c = '+' := by simpa using hsign
      rfl
    · exact absurd hsign (by simp)
  · exact isNumberChar_of_isDigit (isDigit_of_mem_toDigits hdigit)

theorem Scales.isNumberChar {e : Int} (h : Scales rest e) : ∀ c ∈ rest, isNumberChar c = true := by
  cases h with
  | none => exact fun c hc => absurd hc (by simp)
  | exponent plus e =>
    intro c hc
    rcases List.mem_cons.1 hc with rfl | hc
    · rfl
    · exact isNumberChar_signedText plus e c hc

/-- It consists of the characters of numbers. -/
theorem Spells.isNumberChar {r : Rat} (h : Spells cs r) : ∀ c ∈ cs, isNumberChar c = true := by
  cases h with
  | pointed hne hwhole hfraction h =>
    intro c hc
    rcases List.mem_append.1 hc with hc | hc
    · exact isNumberChar_of_isDigit (hwhole c hc)
    rcases List.mem_cons.1 hc with rfl | hc
    · rfl
    rcases List.mem_append.1 hc with hc | hc
    · exact isNumberChar_of_isDigit (hfraction c hc)
    · exact h.isNumberChar c hc
  | plain hne hwhole plus e =>
    intro c hc
    rcases List.mem_append.1 hc with hc | hc
    · exact isNumberChar_of_isDigit (hwhole c hc)
    · exact (Scales.exponent plus e).isNumberChar c hc

/-! ## Layouts -/

/-- **The text of a decimal** in a layout writes its value. -/
theorem spells_magnitude (l : Layout) (d : Digits) : Spells (l.magnitude d).toList d.value := by
  obtain ⟨n, e⟩ := d
  have hne : Nat.toDigits 10 n ≠ [] := Nat.toDigits_ne_nil
  have hall : ∀ c ∈ Nat.toDigits 10 n, isDigit c = true := fun _ => isDigit_of_mem_toDigits
  have hvalue := digitsValue_toDigits n
  have hpos : 0 < (Nat.toDigits 10 n).length := List.length_pos_of_ne_nil hne
  simp only [Layout.magnitude, Digits.value]
  generalize Nat.toDigits 10 n = text at *
  subst hvalue
  split
  · split
    · -- zeros in front of the point make up for the exponent
      next hexp =>
      obtain ⟨k, rfl⟩ := Int.eq_ofNat_of_zero_le hexp
      have hwhole : ∀ c ∈ text ++ List.replicate k '0', isDigit c = true := fun c hc =>
        (List.mem_append.1 hc).elim (hall c) (isDigit_zeros c)
      have hspells : Spells ((text ++ List.replicate k '0') ++ '.' :: (['0'] ++ [])) _ :=
        .pointed (by simp [hne]) hwhole (by simp [isDigit]) .none
      have hscaled : (digitsValue ((text ++ List.replicate k '0') ++ ['0']) : Rat) *
          10 ^ ((0 : Int) - (['0'].length : Int)) = digitsValue text * 10 ^ (k : Int) := by
        rw [digitsValue_append, digitsValue_append, digitsValue_zeros]
        simp [digitsValue]
        ring
      rw [hscaled] at hspells
      simpa using hspells
    split
    · -- the point stands between the digits
      next hexp hlead =>
      generalize hcut : ((text.length : Int) - 1 + e).toNat + 1 = cut
      have hlength : ((text.drop cut).length : Int) = -e := by
        rw [List.length_drop]
        omega
      have hspells : Spells (text.take cut ++ '.' :: (text.drop cut ++ [])) _ :=
        .pointed (by simp [hne, ← hcut]) (fun c hc => hall c (List.mem_of_mem_take hc))
          (fun c hc => hall c (List.mem_of_mem_drop hc)) .none
      rw [List.take_append_drop, hlength, zero_sub, neg_neg] at hspells
      simpa using hspells
    · -- zeros stand between the point and the digits
      next hexp hlead =>
      generalize hzeros : (-((text.length : Int) - 1 + e) - 1).toNat = zeros
      have hlength : ((List.replicate zeros '0' ++ text).length : Int) = -e := by
        rw [List.length_append, List.length_replicate]
        omega
      have hfraction : ∀ c ∈ List.replicate zeros '0' ++ text, isDigit c = true := fun c hc =>
        (List.mem_append.1 hc).elim (isDigit_zeros c) (hall c)
      have hspells : Spells (['0'] ++ '.' :: ((List.replicate zeros '0' ++ text) ++ [])) _ :=
        .pointed (by simp) (by simp [isDigit]) hfraction .none
      rw [digitsValue_append, digitsValue_append, digitsValue_zeros, hlength, zero_sub, neg_neg] at hspells
      simpa [digitsValue] using hspells
  · -- one digit in front of the point, if there is any behind it, and an exponent
    obtain ⟨c, rest, rfl⟩ := List.exists_cons_of_ne_nil hne
    have hhead : ∀ x ∈ [c], isDigit x = true := fun x hx => hall x (by simp_all)
    cases rest with
    | nil =>
      have hspells := Spells.plain (by simp) hhead l.plus e
      simpa [signedText] using hspells
    | cons c' rest =>
      have hlead : (((c :: c' :: rest).length : Int) - 1 + e) - ((c' :: rest).length : Int) = e := by
        simp only [List.length_cons]
        omega
      have hspells := Spells.pointed (by simp) hhead (fun x hx => hall x (List.mem_cons_of_mem c hx))
        (Scales.exponent l.plus (((c :: c' :: rest).length : Int) - 1 + e))
      rw [hlead] at hspells
      simpa [signedText] using hspells

/-- The text of a floating-point number begins with a sign or a digit. -/
theorem render_head (l : Layout) (x : Float) :
    ∃ c rest, (l.render x).toList = c :: rest ∧ (c = '-' ∨ isDigit c = true) := by
  obtain ⟨c, rest, hhead, hc⟩ := (spells_magnitude l (shortest (Binary.ofFloat x))).head
  simp only [Layout.render]
  split
  · rw [String.toList_append]
    exact ⟨'-', _, rfl, .inl rfl⟩
  · exact ⟨c, rest, hhead, .inr hc⟩

theorem isNumberChar_render (l : Layout) (x : Float) :
    ∀ c ∈ (l.render x).toList, isNumberChar c = true := by
  have hspells := spells_magnitude l (shortest (Binary.ofFloat x))
  intro c hc
  simp only [Layout.render] at hc
  split at hc
  · rw [String.toList_append] at hc
    rcases List.mem_append.1 hc with hsign | hc
    · obtain rfl : c = '-' := by simpa using hsign
      rfl
    · exact hspells.isNumberChar c hc
  · exact hspells.isNumberChar c hc

/-- A floating-point number has a point or an exponent. -/
theorem render_marked (l : Layout) (x : Float) :
    '.' ∈ (l.render x).toList ∨ 'e' ∈ (l.render x).toList := by
  have hmarked := (spells_magnitude l (shortest (Binary.ofFloat x))).marked
  simp only [Layout.render]
  split
  · rw [String.toList_append]
    exact hmarked.imp (List.mem_append_right _) (List.mem_append_right _)
  · exact hmarked

/-- **Different floating-point numbers have different texts**, zero and negative zero among them. -/
theorem Layout.render_injective (l : Layout) : Function.Injective l.render := by
  intro x y h
  have hx := spells_magnitude l (shortest (Binary.ofFloat x))
  have hy := spells_magnitude l (shortest (Binary.ofFloat y))
  -- the magnitudes begin with digits, so a sign in front of one of them is told from them
  have hsign : ∀ {cs ds : List Char} {r : Rat}, Spells ds r → '-' :: cs ≠ ds := by
    intro cs ds r hds heq
    obtain ⟨c, rest, rfl, hc⟩ := hds.head
    rw [← (List.cons.inj heq).1] at hc
    contradiction
  have hlist := congrArg String.toList h
  simp only [Layout.render, apply_ite String.toList, String.toList_append] at hlist
  have hboth : (Binary.ofFloat x).negative = (Binary.ofFloat y).negative ∧
      (l.magnitude (shortest (Binary.ofFloat x))).toList =
        (l.magnitude (shortest (Binary.ofFloat y))).toList := by
    cases hnx : (Binary.ofFloat x).negative <;> cases hny : (Binary.ofFloat y).negative <;>
      simp only [hnx, hny, if_true, Bool.false_eq_true, if_false] at hlist
    · exact ⟨rfl, hlist⟩
    · exact absurd hlist.symm (hsign hx)
    · exact absurd hlist (hsign hy)
    · exact ⟨rfl, List.append_cancel_left hlist⟩
  obtain ⟨hnegative, htext⟩ := hboth
  have hvalue : (shortest (Binary.ofFloat x)).value = (shortest (Binary.ofFloat y)).value := by
    rw [← hx.reading, ← hy.reading, htext]
  obtain ⟨hmant, hexp⟩ :=
    eq_of_shortest_value_eq (Binary.ofFloat_canonical x) (Binary.ofFloat_canonical y) hvalue
  exact Binary.ofFloat_injective (Binary.ext hnegative hmant hexp)

end Stepflow.Decimal
