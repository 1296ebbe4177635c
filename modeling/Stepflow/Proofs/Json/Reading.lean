import Stepflow.Proofs.Document.Writing

/-!
# Printed JSON text reads back

`Value.pretty` writes a value with one member to a line, and `Json.read?` finds in the text what was
written: every name and every text character by character, every whole number, the members and the
fields in their order. A floating-point number is found again if its own digits read as it.
-/

namespace Stepflow.Json

open Text Decimal

/-! ## Texts -/

theorem hexValue?_hexDigit : ∀ n < 16, hexValue? (hexDigit n) = some n := by
  decide

/-- **One character** of a quoted text is one piece, which means the character. -/
theorem readPieces?_encodeChar (c : Char) {cs rest : List Char} {ps : List Piece}
    (h : readPieces? cs = some (ps, rest)) :
    ∃ p, readPieces? (encodeChar c ++ cs) = some (p :: ps, rest) ∧
      ∀ qs, decodePieces? (p :: qs) = (decodePieces? qs).map (c :: ·) := by
  have hchar : ∀ qs, decodePieces? (.char c :: qs) = (decodePieces? qs).map (c :: ·) := fun qs => by
    rw [decodePieces?]
  unfold encodeChar
  -- the quote, the backslash, and the control characters that are written by a letter
  iterate 5
    split
    · next hc => exact ⟨.char c, by simp [readPieces?, h, hc], hchar⟩
  split
  · next hc =>
    have hc : Char.ofNat 8 = c := by rw [← hc, Char.ofNat_toNat]
    exact ⟨.char c, by simpa [readPieces?, h] using hc, hchar⟩
  split
  · next hc =>
    have hc : Char.ofNat 12 = c := by rw [← hc, Char.ofNat_toNat]
    exact ⟨.char c, by simpa [readPieces?, h] using hc, hchar⟩
  split
  · next hc =>
    have hhigh := hexValue?_hexDigit (c.toNat / 16) (by omega)
    have hlow := hexValue?_hexDigit (c.toNat % 16) (by omega)
    have hzero : hexValue? '0' = some 0 := by decide
    have hunit : c.toNat / 16 * 16 + c.toNat % 16 = c.toNat := by omega
    refine ⟨.unit c.toNat, by simpa [readPieces?, h, hhigh, hlow, hzero] using hunit, fun qs => ?_⟩
    have hupper : (0xD800 ≤ c.toNat && c.toNat < 0xDC00) = false := by simp; omega
    have hlower : (0xDC00 ≤ c.toNat && c.toNat < 0xE000) = false := by simp; omega
    rw [decodePieces?.eq_def]
    simp only [hupper, hlower, Bool.false_eq_true, if_false, Char.ofNat_toNat]
  · next hquote hbackslash _ _ _ _ _ hcontrol =>
    refine ⟨.char c, ?_, hchar⟩
    simp only [List.singleton_append]
    rw [readPieces?]
    · simp [h, hcontrol]
    · exact hquote
    · exact fun _ _ _ _ _ hc _ => hbackslash hc
    · exact fun _ _ hc _ => hbackslash hc

/-- **A quoted text** is read up to its closing quote. -/
theorem readText?_quoted (s : String) (rest : List Char) :
    readText? (s.toList.flatMap encodeChar ++ '"' :: rest) = some (some s, rest) := by
  have hpieces : ∀ cs : List Char, ∃ ps,
      readPieces? (cs.flatMap encodeChar ++ '"' :: rest) = some (ps, rest) ∧
        decodePieces? ps = some cs := by
    intro cs
    induction cs with
    | nil => exact ⟨[], by simp [readPieces?], by rw [decodePieces?]⟩
    | cons c cs ih =>
      obtain ⟨ps, hread, hdecode⟩ := ih
      obtain ⟨p, hp, hmeans⟩ := readPieces?_encodeChar c hread
      refine ⟨p :: ps, ?_, ?_⟩
      · rw [List.flatMap_cons, List.append_assoc, hp]
      · rw [hmeans, hdecode]
        rfl
  obtain ⟨ps, hread, hdecode⟩ := hpieces s.toList
  simp only [readText?, hread, hdecode, Option.map_some, String.ofList_toList]

/-! ## Numbers -/

/-- What follows a number inside a list or an object: nothing, a comma or the end of a line. -/
def Closes (rest : List Char) : Prop := ∀ c, rest.head? = some c → c = ',' ∨ c = '\n'

/-- Only zero is written with a zero in front. -/
theorem head_toDigits {n : Nat} (h : 0 < n) : (Nat.toDigits 10 n).head? ≠ some '0' := by
  induction n using Nat.base_induction 10 (by decide) with
  | single m hm =>
    rw [Nat.toDigits_of_lt_base hm]
    simpa using Nat.ne_of_gt h
  | digit m k hk hm ih =>
    rw [← Nat.toDigits_append_toDigits (by decide) hm hk, List.head?_append]
    cases hd : (Nat.toDigits 10 m).head? with
    | none => exact absurd (List.head?_eq_none_iff.1 hd) Nat.toDigits_ne_nil
    | some c => exact fun heq => ih hm (hd.trans heq)

/-- **As many digits as there are** fit into 64 bits, if the number does. -/
theorem takeDigits_eq {cs : List Char} {n : Nat} (h : Nat.ofDigitChars 10 cs n < wordBound)
    (taken : Nat) :
    takeDigits n taken cs = (Nat.ofDigitChars 10 cs n, taken + cs.length, 0) := by
  induction cs generalizing n taken with
  | nil => simp [takeDigits]
  | cons c cs ih =>
    rw [Nat.ofDigitChars_cons] at h ⊢
    have hnext : 10 * n + digitsValue [c] = 10 * n + (c.toNat - '0'.toNat) := by simp [digitsValue]
    have hle : 10 * n + (c.toNat - '0'.toNat) < wordBound := by
      refine Nat.lt_of_le_of_lt ?_ h
      rw [Nat.ofDigitChars_eq_ofDigitChars_zero]
      exact Nat.le_add_right_of_le (Nat.le_mul_of_pos_left _ (Nat.pow_pos (by decide)))
    rw [takeDigits, hnext]
    simp only [hle, if_true, ih h, List.length_cons]
    rw [Nat.add_right_comm, Nat.add_assoc]

/-- The literal of a whole number. -/
def wholeLiteral (negative : Bool) (n : Nat) : NumberLiteral :=
  ⟨negative, Nat.toDigits 10 n, none, none⟩

theorem readNumber?_whole (negative : Bool) (n : Nat) {rest : List Char} (h : Closes rest) :
    readNumber? ((if negative then ['-'] else []) ++ (Nat.toDigits 10 n ++ rest)) =
      some (wholeLiteral negative n, rest) := by
  have hstops : ∀ c, rest.head? = some c → isDigit c = false := fun c hc => by
    obtain rfl | rfl := h c hc <;> decide
  have hspan := spanDigits_append (fun _ => isDigit_of_mem_toDigits (n := n)) hstops
  have hlead : ((Nat.toDigits 10 n).isEmpty || ((Nat.toDigits 10 n).head? == some '0' &&
      decide ((Nat.toDigits 10 n).length ≠ 1))) = false := by
    rcases Nat.eq_zero_or_pos n with rfl | hn
    · simp
    · simp [head_toDigits hn]
  cases negative with
  | true =>
    simp only [readNumber?, if_true, List.singleton_append, hspan, hlead]
    cases rest with
    | nil => rfl
    | cons c rest => obtain rfl | rfl := h c rfl <;> rfl
  | false =>
    have hne : ∀ r, Nat.toDigits 10 n ++ rest = '-' :: r → False := fun r heq => by
      rw [heq] at hspan
      exact Nat.toDigits_ne_nil (congrArg Prod.fst hspan).symm
    simp only [readNumber?, Bool.false_eq_true, if_false, List.nil_append, hspan, hlead]
    cases rest with
    | nil => rfl
    | cons c rest => obtain rfl | rfl := h c rfl <;> rfl

theorem value?_wholeLiteral {negative : Bool} {n : Nat}
    (h : if negative then 0 < n ∧ n ≤ Nat.pow 2 63 else n < wordBound) :
    (wholeLiteral negative n).value? = some (.int (if negative then -(n : Int) else n)) := by
  have hfits : n < wordBound := by
    cases negative with
    | true => exact Nat.lt_of_le_of_lt h.2 (by decide)
    | false => exact h
  have htake : takeDigits 0 0 (Nat.toDigits 10 n) = (n, (Nat.toDigits 10 n).length, 0) := by
    have hvalue : Nat.ofDigitChars 10 (Nat.toDigits 10 n) 0 = n := Nat.ofDigitChars_ten_toDigits
    rw [takeDigits_eq (hvalue.symm ▸ hfits), hvalue, Nat.zero_add]
  cases negative with
  | true =>
    have hword : ¬(n = 0 ∨ Nat.pow 2 63 < n) := by
      rintro (hzero | hlarge)
      · exact Nat.ne_of_gt h.1 hzero
      · exact Nat.not_le_of_gt hlarge h.2
    simp only [wholeLiteral, NumberLiteral.value?, htake]
    simp [hword]
  | false => simp [wholeLiteral, NumberLiteral.value?, htake]

theorem toList_toString_ofNat (n : Nat) : (toString (Int.ofNat n)).toList = Nat.toDigits 10 n :=
  Nat.toList_repr

theorem toList_toString_negSucc (n : Nat) :
    (toString (Int.negSucc n)).toList = '-' :: Nat.toDigits 10 (n + 1) := by
  have htail : (n + 1).repr.toList = Nat.toDigits 10 (n + 1) := Nat.toList_repr
  rw [show toString (Int.negSucc n) = "-" ++ (n + 1).repr from rfl, String.toList_append, htail]
  rfl

/-- **The text of a whole number** is read as that number. -/
theorem readNumber?_int {n : Int} (hn : Value.minInt ≤ n ∧ n < Value.intBound) {rest : List Char}
    (h : Closes rest) : ∃ l, readNumber? ((toString n).toList ++ rest) = some (l, rest) ∧
      l.value? = some (.int n) := by
  cases n with
  | ofNat n =>
    have hfits : n < wordBound := Int.ofNat_lt.1 hn.2
    refine ⟨wholeLiteral false n, ?_, value?_wholeLiteral hfits⟩
    rw [toList_toString_ofNat]
    exact readNumber?_whole false n h
  | negSucc n =>
    have hfits : n + 1 ≤ Nat.pow 2 63 := by
      have hmin : -(Nat.pow 2 63 : Int) ≤ Int.negSucc n := hn.1
      omega
    refine ⟨wholeLiteral true (n + 1), ?_, value?_wholeLiteral ⟨Nat.succ_pos n, hfits⟩⟩
    rw [toList_toString_negSucc]
    exact readNumber?_whole true (n + 1) h

/-- A number begins with a minus sign or with a digit. -/
theorem head_of_readNumber? {cs : List Char} {r : NumberLiteral × List Char}
    (h : readNumber? cs = some r) : ∃ c rest, cs = c :: rest ∧ (c = '-' || isDigit c) = true := by
  cases cs with
  | nil => contradiction
  | cons c rest =>
    refine ⟨c, rest, rfl, ?_⟩
    refine Bool.of_not_eq_false fun hc => ?_
    simp only [Bool.or_eq_false_iff, decide_eq_false_iff_not] at hc
    have hne : ∀ r, c :: rest = '-' :: r → False := fun r heq => hc.1 (List.cons.inj heq).1
    simp [readNumber?, spanDigits, hc.2] at h

/-! ## Values -/

mutual

/-- What is read from the printed text of a value. -/
def ofValue : Value → Json
  | .null => .null
  | .bool b => .bool b
  | .int n => .number (some (.int n))
  | .float x => .number (some (.float x))
  | .str s => .text (some s)
  | .arr vs => .array (ofValues vs)
  | .obj fs => .object (ofFields fs)

/-- What is read from the members of a list. -/
def ofValues : List Value → List Json
  | [] => []
  | v :: rest => ofValue v :: ofValues rest

/-- What is read from named values. -/
def ofFields : List (String × Value) → List (Option String × Json)
  | [] => []
  | (k, v) :: rest => (some k, ofValue v) :: ofFields rest

end

/-- The digits of a floating-point number are read as that number, whatever follows it. -/
def ReadsBack (x : Float) : Prop := ∀ rest, Closes rest →
  ∃ l, readNumber? ((layout.render x).toList ++ rest) = some (l, rest) ∧ l.value? = some (.float x)

/-- Whether a floating-point number is found again from its digits. -/
def Legible : Value → Prop
  | .float x => ReadsBack x
  | _ => True

section Steps

variable {fuel : Nat} {cs rest more : List Char} {j : Json} {js : List Json} {name : Option String}
  {fs : List (Option String × Json)}

/-- Space in front of a value does not matter. -/
theorem readValue?_congr {cs ds : List Char} (h : skipSpace cs = skipSpace ds) :
    readValue? fuel cs = readValue? fuel ds := by
  cases fuel with
  | zero => simp only [readValue?]
  | succ fuel => simp only [readValue?, h]

theorem readItems?_congr {cs ds : List Char} (h : skipSpace cs = skipSpace ds) :
    readItems? fuel cs = readItems? fuel ds := by
  cases fuel with
  | zero => simp only [readItems?]
  | succ fuel => simp only [readItems?, readValue?_congr h]

theorem readFields?_congr {cs ds : List Char} (h : skipSpace cs = skipSpace ds) :
    readFields? fuel cs = readFields? fuel ds := by
  cases fuel with
  | zero => simp only [readFields?]
  | succ fuel => simp only [readFields?, h]

theorem skipSpace_cons {c : Char} (h : isSpace c = false) (cs : List Char) :
    skipSpace (c :: cs) = c :: cs := List.dropWhile_cons_of_neg (by simp [h])

theorem skipSpace_lineStart (level : Nat) (cs : List Char) :
    skipSpace ((Value.lineStart level).toList ++ cs) = skipSpace cs := by
  refine List.dropWhile_append_of_pos fun c hc => ?_
  have hc : c = '\n' ∨ c = ' ' := by
    simp only [Value.lineStart, String.toList_append, String.toList_ofList, List.mem_append] at hc
    exact hc.imp (by simp) List.eq_of_mem_replicate
  obtain rfl | rfl := hc <;> decide

theorem skipSpace_space (cs : List Char) : skipSpace (' ' :: cs) = skipSpace cs :=
  List.dropWhile_cons_of_pos (by decide)

theorem length_lineStart (level : Nat) : (Value.lineStart level).toList.length = 2 * level + 1 := by
  simp [Value.lineStart, Nat.add_comm]

theorem skipSpace_skipSpace (cs : List Char) : skipSpace (skipSpace cs) = skipSpace cs := by
  induction cs with
  | nil => rfl
  | cons c cs ih =>
    cases h : isSpace c with
    | true => simpa [skipSpace, List.dropWhile_cons, h] using ih
    | false => rw [skipSpace_cons h, skipSpace_cons h]

theorem readValue?_number {l : NumberLiteral} (h : readNumber? cs = some (l, rest)) :
    readValue? (fuel + 1) cs = some (.number l.value?, rest) := by
  obtain ⟨c, cs, rfl, hc⟩ := head_of_readNumber? h
  have hother : ∀ d : Char, (d = '-' || isDigit d) = false → c ≠ d := fun d hd heq =>
    absurd (heq ▸ hc) (by simp [hd])
  have hspace : isSpace c = false := by
    simp [isSpace, hother ' ' (by decide), hother '\n' (by decide), hother '\t' (by decide),
      hother '\r' (by decide)]
  rw [readValue?, skipSpace_cons hspace]
  split
  · next heq => exact absurd (List.cons.inj heq).1 (hother '[' (by decide))
  · next heq => exact absurd (List.cons.inj heq).1 (hother '\x7b' (by decide))
  · next heq => exact absurd (List.cons.inj heq).1 (hother '"' (by decide))
  · next heq =>
    obtain ⟨rfl, rfl⟩ := List.cons.inj heq
    rw [if_pos hc, h]
    rfl
  · contradiction

theorem readItems?_last (h : readValue? fuel cs = some (j, rest)) (hr : skipSpace rest = ']' :: more) :
    readItems? (fuel + 1) cs = some ([j], more) := by
  simp [readItems?, h, hr]

theorem readItems?_more {after : List Char} (h : readValue? fuel cs = some (j, rest))
    (hr : skipSpace rest = ',' :: more) (hm : readItems? fuel more = some (js, after)) :
    readItems? (fuel + 1) cs = some (j :: js, after) := by
  simp [readItems?, h, hr, hm]

theorem readValue?_array (h : readItems? fuel cs = some (js, rest)) :
    readValue? (fuel + 1) ('[' :: cs) = some (.array js, rest) := by
  -- no member begins with a bracket that closes, so the list is not taken for an empty one
  have hopen : ∀ r, skipSpace cs = ']' :: r → False := fun r heq => by
    have hnone : readItems? fuel cs = none := by
      cases fuel with
      | zero => rw [readItems?]
      | succ fuel =>
        cases fuel with
        | zero => rw [readItems?, readValue?]; rfl
        | succ fuel => simp [readItems?, readValue?, heq, isDigit, readWord?, stripPrefix?]
    rw [hnone] at h
    contradiction
  have hcongr : readItems? fuel (skipSpace cs) = some (js, rest) :=
    (readItems?_congr (skipSpace_skipSpace cs)).trans h
  rw [readValue?, skipSpace_cons (by decide)]
  simp only [hcongr, Option.map_some]

theorem readFields?_last (hn : readText? cs = some (name, ':' :: rest))
    (h : readValue? fuel rest = some (j, more)) {after : List Char}
    (hr : skipSpace more = '\x7d' :: after) :
    readFields? (fuel + 1) ('"' :: cs) = some ([(name, j)], after) := by
  simp [readFields?, skipSpace_cons (show isSpace '"' = false by decide), hn, h, hr,
    skipSpace_cons (show isSpace ':' = false by decide)]

theorem readFields?_more {after tail : List Char} (hn : readText? cs = some (name, ':' :: rest))
    (h : readValue? fuel rest = some (j, more)) (hr : skipSpace more = ',' :: after)
    (hm : readFields? fuel after = some (fs, tail)) :
    readFields? (fuel + 1) ('"' :: cs) = some ((name, j) :: fs, tail) := by
  simp [readFields?, skipSpace_cons (show isSpace '"' = false by decide), hn, h, hr, hm,
    skipSpace_cons (show isSpace ':' = false by decide)]

theorem readValue?_object (h : readFields? fuel cs = some (fs, rest)) :
    readValue? (fuel + 1) ('\x7b' :: cs) = some (.object fs, rest) := by
  have hopen : ∀ r, skipSpace cs = '\x7d' :: r → False := fun r heq => by
    have hnone : readFields? fuel cs = none := by
      cases fuel with
      | zero => rw [readFields?]
      | succ fuel => simp [readFields?, heq]
    rw [hnone] at h
    contradiction
  have hcongr : readFields? fuel (skipSpace cs) = some (fs, rest) :=
    (readFields?_congr (skipSpace_skipSpace cs)).trans h
  rw [readValue?, skipSpace_cons (by decide)]
  simp only [hcongr, Option.map_some]

end Steps

theorem closes_nil : Closes [] := fun _ h => by contradiction

theorem closes_comma (rest : List Char) : Closes (',' :: rest) :=
  fun _ h => .inl (Option.some.inj h).symm

theorem closes_lineStart (level : Nat) (rest : List Char) :
    Closes ((Value.lineStart level).toList ++ rest) := fun c h => by
  rw [Value.lineStart, String.toList_append] at h
  exact .inr (Option.some.inj h).symm

open Value

theorem quote_append (s : String) (rest : List Char) :
    (quote s).toList ++ rest = '"' :: (s.toList.flatMap encodeChar ++ '"' :: rest) := by
  simp [quote]

mutual

/-- **The printed text of a value** is read up to what follows it. -/
theorem readValue?_prettyAt : (v : Value) → v.Throughout Bounded → v.Throughout Legible →
    ∀ (level fuel : Nat) (rest : List Char), Closes rest → (prettyAt level v).toList.length < fuel →
      readValue? fuel ((prettyAt level v).toList ++ rest) = some (ofValue v, rest)
  | .null => by
    intro _ _ level fuel rest _ hf
    obtain ⟨fuel, rfl⟩ := Nat.exists_eq_add_one.2 (Nat.zero_lt_of_lt hf)
    rw [prettyAt, ofValue]
    simp [scalarText, readValue?, skipSpace, isSpace, isDigit, readWord?, stripPrefix?]
  | .bool b => by
    intro _ _ level fuel rest _ hf
    obtain ⟨fuel, rfl⟩ := Nat.exists_eq_add_one.2 (Nat.zero_lt_of_lt hf)
    rw [prettyAt, ofValue]
    cases b <;> simp [scalarText, readValue?, skipSpace, isSpace, isDigit, readWord?, stripPrefix?]
  | .int n => by
    intro hb _ level fuel rest hr hf
    obtain ⟨fuel, rfl⟩ := Nat.exists_eq_add_one.2 (Nat.zero_lt_of_lt hf)
    rw [Throughout] at hb
    obtain ⟨l, hread, hvalue⟩ := readNumber?_int hb hr
    rw [prettyAt, scalarText, ofValue, readValue?_number hread, hvalue]
  | .float x => by
    intro hb hl level fuel rest hr hf
    obtain ⟨fuel, rfl⟩ := Nat.exists_eq_add_one.2 (Nat.zero_lt_of_lt hf)
    rw [Throughout] at hb hl
    obtain ⟨l, hread, hvalue⟩ := hl rest hr
    have hfinite : x.isFinite = true := hb
    rw [prettyAt, scalarText, hfinite, if_pos rfl, ofValue, readValue?_number hread, hvalue]
  | .str s => by
    intro _ _ level fuel rest _ hf
    obtain ⟨fuel, rfl⟩ := Nat.exists_eq_add_one.2 (Nat.zero_lt_of_lt hf)
    rw [prettyAt, scalarText, ofValue, quote_append, readValue?, skipSpace_cons (by decide)]
    simp [readText?_quoted]
  | .arr vs => by
    intro hb hl level fuel rest hr hf
    obtain ⟨fuel, rfl⟩ := Nat.exists_eq_add_one.2 (Nat.zero_lt_of_lt hf)
    rw [Throughout] at hb hl
    cases vs with
    | nil => simp [prettyAt, ofValue, ofValues, readValue?, skipSpace, isSpace]
    | cons v vs =>
      obtain ⟨hb, hbs⟩ := hb.2
      obtain ⟨hl, hls⟩ := hl.2
      rw [prettyAt] at hf ⊢
      simp only [String.toList_append, List.length_append, length_lineStart] at hf
      -- the text is longer than its members by the brackets, which leaves the fuel for each of them
      obtain ⟨fuel, rfl⟩ := Nat.exists_eq_add_one.2 (show 0 < fuel by omega)
      have hitems := readItems?_prettyItems vs hbs hls (level + 1) level fuel _ rest (ofValue v)
        (fun tail ht => readValue?_prettyAt v hb hl (level + 1) fuel tail ht (by omega)) (by omega)
      have harray := readValue?_array
        ((readItems?_congr (skipSpace_lineStart (level + 1) _)).trans hitems)
      simpa [ofValue, ofValues] using harray
  | .obj fs => by
    intro hb hl level fuel rest hr hf
    obtain ⟨fuel, rfl⟩ := Nat.exists_eq_add_one.2 (Nat.zero_lt_of_lt hf)
    rw [Throughout] at hb hl
    cases fs with
    | nil => simp [prettyAt, ofValue, ofFields, readValue?, skipSpace, isSpace]
    | cons e fs =>
      obtain ⟨k, v⟩ := e
      obtain ⟨hb, hbs⟩ := hb.2
      obtain ⟨hl, hls⟩ := hl.2
      rw [prettyAt] at hf ⊢
      simp only [String.toList_append, List.length_append, length_lineStart] at hf
      obtain ⟨fuel, rfl⟩ := Nat.exists_eq_add_one.2 (show 0 < fuel by omega)
      have hfields := readFields?_prettyFields fs hbs hls (level + 1) level fuel k _ rest (ofValue v)
        (fun tail ht => readValue?_prettyAt v hb hl (level + 1) fuel tail ht (by omega)) (by omega)
      have hobject := readValue?_object
        ((readFields?_congr (skipSpace_lineStart (level + 1) _)).trans hfields)
      simpa [ofValue, ofFields] using hobject

theorem readItems?_prettyItems : (vs : List Value) → ThroughoutAll Bounded vs →
    ThroughoutAll Legible vs → ∀ (level up fuel : Nat) (cs rest : List Char) (j : Json),
      (∀ tail, Closes tail → readValue? fuel (cs ++ tail) = some (j, tail)) →
      (prettyItems level vs).toList.length < fuel →
      readItems? (fuel + 1) (cs ++ ((prettyItems level vs).toList ++
        ((lineStart up).toList ++ ']' :: rest))) = some (j :: ofValues vs, rest)
  | [] => by
    intro _ _ level up fuel cs rest j hj _
    rw [prettyItems, ofValues]
    exact readItems?_last (hj _ (closes_lineStart up _))
      ((skipSpace_lineStart up _).trans (skipSpace_cons (by decide) _))
  | v :: vs => by
    intro hb hl level up fuel cs rest j hj hf
    obtain ⟨fuel, rfl⟩ := Nat.exists_eq_add_one.2 (Nat.zero_lt_of_lt hf)
    rw [ThroughoutAll] at hb hl
    rw [prettyItems] at hf ⊢
    simp only [String.toList_append, List.length_append, length_lineStart] at hf
    have hitems := readItems?_prettyItems vs hb.2 hl.2 level up fuel _ rest (ofValue v)
      (fun tail ht => readValue?_prettyAt v hb.1 hl.1 level fuel tail ht (by omega)) (by omega)
    have hmore := readItems?_more (hj _ (closes_comma _)) (skipSpace_cons (by decide) _)
      ((readItems?_congr (skipSpace_lineStart level _)).trans hitems)
    simpa [ofValues] using hmore

theorem readFields?_prettyFields : (fs : List (String × Value)) → ThroughoutFields Bounded fs →
    ThroughoutFields Legible fs →
    ∀ (level up fuel : Nat) (name : String) (cs rest : List Char) (j : Json),
      (∀ tail, Closes tail → readValue? fuel (cs ++ tail) = some (j, tail)) →
      (prettyFields level fs).toList.length < fuel →
      readFields? (fuel + 1) ((quote name).toList ++ ':' :: ' ' :: (cs ++
        ((prettyFields level fs).toList ++ ((lineStart up).toList ++ '\x7d' :: rest)))) =
        some ((some name, j) :: ofFields fs, rest)
  | [] => by
    intro _ _ level up fuel name cs rest j hj _
    have hspaced : ∀ tail, Closes tail → readValue? fuel (' ' :: (cs ++ tail)) = some (j, tail) :=
      fun tail ht => (readValue?_congr (skipSpace_space _)).trans (hj tail ht)
    rw [prettyFields, ofFields, quote_append]
    exact readFields?_last (readText?_quoted name _) (hspaced _ (closes_lineStart up _))
      ((skipSpace_lineStart up _).trans (skipSpace_cons (by decide) _))
  | (k, v) :: fs => by
    intro hb hl level up fuel name cs rest j hj hf
    obtain ⟨fuel, rfl⟩ := Nat.exists_eq_add_one.2 (Nat.zero_lt_of_lt hf)
    rw [ThroughoutFields] at hb hl
    rw [prettyFields] at hf ⊢
    simp only [String.toList_append, List.length_append, length_lineStart] at hf
    have hfields := readFields?_prettyFields fs hb.2 hl.2 level up fuel k _ rest (ofValue v)
      (fun tail ht => readValue?_prettyAt v hb.1 hl.1 level fuel tail ht (by omega)) (by omega)
    have hspaced : ∀ tail, Closes tail → readValue? (fuel + 1) (' ' :: (cs ++ tail)) = some (j, tail) :=
      fun tail ht => (readValue?_congr (skipSpace_space _)).trans (hj tail ht)
    have hmore := readFields?_more (readText?_quoted name _) (hspaced _ (closes_comma _))
      (skipSpace_cons (by decide) _)
      ((readFields?_congr (skipSpace_lineStart level _)).trans hfields)
    rw [quote_append]
    simpa [ofFields] using hmore

end

/-- **Printed JSON text reads back**, if its floating-point numbers do. -/
theorem read?_pretty {v : Value} (hb : v.Throughout Bounded) (hl : v.Throughout Legible) :
    read? v.pretty.toList = some (ofValue v) := by
  have hread := readValue?_prettyAt v hb hl 0 (v.pretty.toList.length + 1) [] closes_nil
    (Nat.lt_succ_self _)
  rw [List.append_nil, ← pretty] at hread
  rw [read?, hread]
  rfl

/-! ## Items -/

mutual

/-- **What was read from the text of a value** is what became of it, if the value is not too deep. -/
theorem writes_ofJson : (v : Value) → ∀ room, v.depth ≤ room →
    (Item.ofJson room (ofValue v)).Writes v
  | .null | .bool _ | .int _ | .float _ | .str _ => by
    intro room _
    rw [ofValue, Item.ofJson, Item.Writes]
    exact Item.says_datum _
  | .arr vs => by
    intro room hroom
    rw [depth] at hroom
    obtain ⟨room, rfl⟩ := Nat.exists_eq_add_one.2 (Nat.zero_lt_of_lt hroom)
    rw [ofValue, Item.ofJson, Item.Writes]
    exact ⟨true, _, rfl, writes_ofJsonItems vs room (Nat.le_of_succ_le_succ hroom)⟩
  | .obj fs => by
    intro room hroom
    rw [depth] at hroom
    obtain ⟨room, rfl⟩ := Nat.exists_eq_add_one.2 (Nat.zero_lt_of_lt hroom)
    rw [ofValue, Item.ofJson, Item.Writes]
    exact ⟨_, rfl, writes_ofJsonFields fs room (Nat.le_of_succ_le_succ hroom)⟩

theorem writes_ofJsonItems : (vs : List Value) → ∀ room, depthList vs ≤ room →
    Item.WritesAll (Item.ofJsonItems room (ofValues vs)) vs
  | [] => by
    intro room _
    rw [ofValues, Item.ofJsonItems, Item.WritesAll]
  | v :: vs => by
    intro room hroom
    rw [depthList] at hroom
    rw [ofValues, Item.ofJsonItems, Item.WritesAll]
    exact ⟨_, _, rfl, writes_ofJson v room (by omega), writes_ofJsonItems vs room (by omega)⟩

theorem writes_ofJsonFields : (fs : List (String × Value)) → ∀ room, depthFields fs ≤ room →
    Item.WritesFields (Item.ofJsonFields room (ofFields fs)) fs
  | [] => by
    intro room _
    rw [ofFields, Item.ofJsonFields, Item.WritesFields]
  | (k, v) :: fs => by
    intro room hroom
    rw [depthFields] at hroom
    rw [ofFields, Item.ofJsonFields, Item.WritesFields]
    exact ⟨_, _, _, rfl, Item.says_datum _, writes_ofJson v room (by omega),
      writes_ofJsonFields fs room (by omega)⟩

end

end Stepflow.Json

/-!
## What is too deep is not read

Lists and objects that are nested beyond the room a reader has become items that cannot be looked at. A
reader that asks for everything comes upon them: if a free value is read, it was within the room, and
so was a record or a list of which every part that is read is within its own.
-/

namespace Stepflow

/-! ### The depth of values -/

namespace Value

theorem depthFields_le_iff {fs : List (String × Value)} {n : Nat} :
    depthFields fs ≤ n ↔ ∀ e ∈ fs, e.2.depth ≤ n := by
  induction fs with
  | nil => simp [depthFields]
  | cons e fs ih =>
    obtain ⟨k, v⟩ := e
    rw [depthFields, Nat.max_le, ih, List.forall_mem_cons]

end Value

/-! ### Parts within their rooms -/

namespace Json

open Item (ofJson ofJsonItems ofJsonFields)

mutual

/-- **A free value** that is read is within the room there was. -/
theorem depth_le_of_value? : (v : Value) → (room : Nat) → (u : Value) →
    (ofJson room (ofValue v)).value? = some u → v.depth ≤ room
  | .null, _, _, _ | .bool _, _, _, _ | .int _, _, _, _ | .float _, _, _, _ | .str _, _, _, _ => by
    simp [Value.depth]
  | .arr vs, 0, _, h => by
    rw [ofValue, ofJson, Item.value?] at h
    contradiction
  | .arr vs, room + 1, _, h => by
    rw [ofValue, ofJson, Item.value?] at h
    obtain ⟨us, hus, -⟩ := Option.map_eq_some_iff.1 h
    rw [Value.depth]
    exact Nat.succ_le_succ (depth_le_of_values? vs room us hus)
  | .obj fs, 0, _, h => by
    rw [ofValue, ofJson, Item.value?] at h
    contradiction
  | .obj fs, room + 1, _, h => by
    rw [ofValue, ofJson, Item.value?] at h
    obtain ⟨us, hus, -⟩ := Option.map_eq_some_iff.1 h
    rw [Value.depth]
    exact Nat.succ_le_succ (depth_le_of_fields? fs room us hus)

theorem depth_le_of_values? : (vs : List Value) → (room : Nat) → (us : List Value) →
    Item.values? (ofJsonItems room (ofValues vs)) = some us → Value.depthList vs ≤ room
  | [], _, _, _ => by
    rw [Value.depthList]
    exact Nat.zero_le _
  | v :: vs, room, us, h => by
    rw [ofValues, ofJsonItems, Item.values?] at h
    obtain ⟨u, hu, h⟩ := Option.bind_eq_some_iff.1 h
    obtain ⟨us', hus, -⟩ := Option.bind_eq_some_iff.1 h
    rw [Value.depthList, Nat.max_le]
    exact ⟨depth_le_of_value? v room u hu, depth_le_of_values? vs room us' hus⟩

theorem depth_le_of_fields? : (fs : List (String × Value)) → (room : Nat) →
    (us : List (String × Value)) → Item.fields? (ofJsonFields room (ofFields fs)) = some us →
    Value.depthFields fs ≤ room
  | [], _, _, _ => by
    rw [Value.depthFields]
    exact Nat.zero_le _
  | (k, v) :: fs, room, us, h => by
    rw [ofFields, ofJsonFields, Item.fields?] at h
    obtain ⟨name, -, h⟩ := Option.bind_eq_some_iff.1 h
    obtain ⟨u, hu, h⟩ := Option.bind_eq_some_iff.1 h
    obtain ⟨us', hus, -⟩ := Option.bind_eq_some_iff.1 h
    rw [Value.depthFields, Nat.max_le]
    exact ⟨depth_le_of_value? v room u hu, depth_le_of_fields? fs room us' hus⟩

end

/-- The fields of a record are found as they were written, if no other name is among them and none is
repeated. -/
theorem collectFields_ofJson {names : List String} {fs : List (String × Value)}
    (hmem : ∀ e ∈ fs, e.1 ∈ names) (hn : (fs.map Prod.fst).Nodup) (room : Nat) :
    Item.collectFields names (ofJsonFields room (ofFields fs)) =
      some (fs.map fun e => (e.1, ofJson room (ofValue e.2))) := by
  induction fs with
  | nil => rw [ofFields, ofJsonFields, Item.collectFields]; rfl
  | cons e fs ih =>
    obtain ⟨k, v⟩ := e
    rw [List.map_cons, List.nodup_cons] at hn
    have hnew : (fs.map fun e => (e.1, ofJson room (ofValue e.2))).lookup k = none := by
      refine Table.lookup_eq_none ?_
      rw [List.map_map]
      exact hn.1
    have hkey := (Item.says_datum (.text k)).fieldName? (hmem _ List.mem_cons_self)
    rw [ofFields, ofJsonFields, Item.collectFields, hkey,
      ih (fun e he => hmem e (List.mem_cons_of_mem _ he)) hn.2]
    simp [hnew]

/-- **A record** that is read has room for its own level, and its fields are found below it. -/
theorem record?_ofJson {names : List String} {fs : List (String × Value)} {room : Nat}
    {found : List (String × Item)} (hamong : Table.Among fs names) (hn : names.Nodup)
    (h : (ofJson room (ofValue (.obj fs))).record? names = some found) :
    ∃ below, room = below + 1 ∧ found = fs.map fun e => (e.1, ofJson below (ofValue e.2)) := by
  cases room with
  | zero =>
    rw [ofValue, ofJson] at h
    contradiction
  | succ below =>
    rw [ofValue, ofJson] at h
    have hfound : Item.collectFields names (ofJsonFields below (ofFields fs)) = some found := h
    rw [collectFields_ofJson (fun _ he => hamong.mem he) (hamong.nodup hn)] at hfound
    exact ⟨below, rfl, (Option.some.inj hfound).symm⟩

/-- What is looked up among the fields that were found. -/
theorem lookup_ofJson (fs : List (String × Value)) (room : Nat) (name : String) :
    (fs.map fun e => (e.1, ofJson room (ofValue e.2))).lookup name =
      (fs.lookup name).map fun v => ofJson room (ofValue v) := by
  induction fs with
  | nil => rfl
  | cons e fs ih =>
    obtain ⟨k, v⟩ := e
    rw [List.map_cons, Table.lookup_cons, Table.lookup_cons, ih]
    split <;> rfl

/-- **A list** of which every member that is read is within its room is within the room it had. -/
theorem depth_le_of_list? {α : Type} {read : Item → Option α} {vs : List Value} {room : Nat}
    {as : List α} (hread : ∀ v ∈ vs, ∀ n a, read (ofJson n (ofValue v)) = some a → v.depth ≤ n)
    (h : (ofJson room (ofValue (.arr vs))).list? read = some as) : (Value.arr vs).depth ≤ room := by
  cases room with
  | zero =>
    rw [ofValue, ofJson] at h
    contradiction
  | succ room =>
    rw [ofValue, ofJson, Item.list?] at h
    rw [Value.depth, Nat.succ_le_succ_iff]
    induction vs generalizing as with
    | nil =>
      rw [Value.depthList]
      exact Nat.zero_le _
    | cons v vs ih =>
      rw [ofValues, ofJsonItems, List.mapM_cons] at h
      obtain ⟨a, ha, h⟩ := Option.bind_eq_some_iff.1 h
      obtain ⟨rest, hrest, -⟩ := Option.bind_eq_some_iff.1 h
      rw [Value.depthList, Nat.max_le]
      exact ⟨hread v List.mem_cons_self room a ha,
        ih (fun u hu => hread u (List.mem_cons_of_mem _ hu)) hrest⟩

end Json

end Stepflow
