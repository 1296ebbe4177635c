import Stepflow.Proofs.Expression.Cutting

/-!
# The grammar of references

How a reference is written, said without its reader: a numeral, a numeral in brackets, a part of a
path, parts with points between them, and what stands between the markers. Each is a relation between
the characters and what they write, and for each the reader of that name succeeds exactly if the
relation holds (`places_eq_ok_iff`, `part_eq_ok_iff`, `parts_eq_ok_iff`, `body_eq_ok_iff`).

The reader cuts at points first and at brackets afterwards, and takes blanks off at every level. The
grammar has neither order nor levels of trimming: it says where points, brackets and blanks stand.
-/

namespace Stepflow.Expression

open Text

/-! ## What is written how -/

/-- **A numeral**: decimal digits that write a number below `2 ^ 64`. -/
structure Numeral (digits : List Char) (n : Nat) : Prop where
  /-- There is a digit. -/
  nonempty : digits ≠ []
  /-- There is nothing else. -/
  decimal : ∀ c ∈ digits, isDigit c = true
  /-- What they write. -/
  value : Nat.ofDigitChars 10 digits 0 = n
  /-- It fits into a machine word. -/
  bounded : n < Nat.pow 2 64

/-- **A number in brackets**: a numeral, with an optional plus sign right in front of it and any blanks
around both. -/
inductive Bracketed : List Char → Nat → Prop
  /-- The bracket, blanks, the sign, the digits, blanks and the other bracket. -/
  | intro {before sign digits after : List Char} {n : Nat} (hbefore : ∀ c ∈ before, isBlank c = true)
      (hsign : sign = [] ∨ sign = ['+']) (hdigits : Numeral digits n)
      (hafter : ∀ c ∈ after, isBlank c = true) :
      Bracketed ('[' :: (before ++ (sign ++ digits) ++ after ++ [']'])) n

/-- **Any count of numbers in brackets**, one right behind the other. -/
inductive Places : List Char → List Segment → Prop
  /-- None. -/
  | nil : Places [] []
  /-- One, and those behind it. -/
  | cons {group rest : List Char} {n : Nat} {ss : List Segment} (hgroup : Bracketed group n)
      (hrest : Places rest ss) : Places (group ++ rest) (.index n :: ss)

/-- **The head of a part**: a numeral is a place, any other characters of a name are a field. -/
inductive Head : List Char → Segment → Prop
  /-- A place. -/
  | index {cs : List Char} {n : Nat} (h : Numeral cs n) : Head cs (.index n)
  /-- A field. -/
  | field {cs : List Char} (hne : cs ≠ []) (hname : ∀ c ∈ cs, isNameChar c = true)
      (hdigits : ¬ ∀ c ∈ cs, isDigit c = true) : Head cs (.field (String.ofList cs))

/-- **A part of a path**: a head with numbers in brackets behind it, or only numbers in brackets. -/
inductive Part : List Char → List Segment → Prop
  /-- With a head. -/
  | head {cs groups : List Char} {s : Segment} {ss : List Segment} (hhead : Head cs s)
      (hgroups : Places groups ss) : Part (cs ++ groups) (s :: ss)
  /-- Without one, but not empty. -/
  | bare {groups : List Char} {s : Segment} {ss : List Segment} (hgroups : Places groups (s :: ss)) :
      Part groups (s :: ss)

/-- **Parts with points between them**, each with any blanks around it. -/
inductive Dotted : List Char → List Segment → Prop
  /-- The last part. -/
  | last {piece : List Char} {ss : List Segment} (hpoint : '.' ∉ piece) (hpart : Part (trim piece) ss) :
      Dotted piece ss
  /-- A part, a point and the others. -/
  | cons {piece rest : List Char} {ss others : List Segment} (hpoint : '.' ∉ piece)
      (hpart : Part (trim piece) ss) (hrest : Dotted rest others) :
      Dotted (piece ++ '.' :: rest) (ss ++ others)

/-- **What stands between the markers**, blanks at its ends aside: the parts of the path, or the word
`not`, at least one blank, and the parts. -/
inductive Body : Bool → List Char → List Segment → Prop
  /-- The path alone. -/
  | plain {cs : List Char} {ss : List Segment} (hpath : Dotted cs ss) : Body false cs ss
  /-- The path with `not` in front. -/
  | negated {blanks cs : List Char} {ss : List Segment} (hne : blanks ≠ [])
      (hblanks : ∀ c ∈ blanks, isBlank c = true) (hpath : Dotted cs ss) :
      Body true ('n' :: 'o' :: 't' :: (blanks ++ cs)) ss

/-- **What may follow a root**: a name, and for a step the name `output` right behind that. -/
def Follows (root : Root) (path : List Segment) : Prop :=
  ∃ name rest, path = .field name :: rest ∧
    (root = .stepOutput → rest.head? = some (.field "output"))

/-- **A text that writes a reference**: blanks at its ends aside, the two markers with the root and the
path of the reference between them. -/
structure WrittenAs (e : Expression) (text : String) : Prop where
  /-- The reference keeps the text without the blanks. -/
  raw : e.raw = String.ofList (trim text.toList)
  /-- What the text consists of. -/
  enclosed : ∃ inner, trim text.toList = opening ++ inner ++ closing ∧
    Body e.negated (trim inner) (.field e.root.word :: e.path)
  /-- The path is one that the root can have. -/
  follows : Follows e.root e.path

/-! ## Which characters occur -/

section Characters

variable {cs digits : List Char} {n : Nat} {s : Segment} {ss : List Segment} {c : Char}

/-- A character of a name lies between the hyphen and the small letters. -/
theorem range_of_isNameChar (h : isNameChar c = true) : 45 ≤ c.toNat ∧ c.toNat ≤ 122 := by
  simp only [isNameChar, isDigit, Bool.or_eq_true, Bool.and_eq_true, decide_eq_true_eq, Char.le_def,
    UInt32.le_iff_toNat_le, ← Char.toNat_val] at h ⊢
  obtain (((⟨hl, hu⟩ | ⟨hl, hu⟩) | ⟨hl, hu⟩) | rfl) | rfl := h
  · change 97 ≤ c.val.toNat at hl
    change c.val.toNat ≤ 122 at hu
    omega
  · change 65 ≤ c.val.toNat at hl
    change c.val.toNat ≤ 90 at hu
    omega
  · change 48 ≤ c.val.toNat at hl
    change c.val.toNat ≤ 57 at hu
    omega
  · decide
  · decide

theorem isBlank_of_isNameChar (h : isNameChar c = true) : isBlank c = false := by
  have hrange := range_of_isNameChar h
  simp only [isBlank, blankRanges, List.any_cons, List.any_nil, Bool.or_false, Bool.or_eq_false_iff,
    Bool.and_eq_false_iff, decide_eq_false_iff_not, Nat.not_le]
  omega

theorem isNameChar_of_isDigit (h : isDigit c = true) : isNameChar c = true := by
  simp [isNameChar, h]

theorem isBlank_of_isDigit (h : isDigit c = true) : isBlank c = false :=
  isBlank_of_isNameChar (isNameChar_of_isDigit h)

/-- A head has no other characters than those of a name. -/
theorem Head.isNameChar (h : Head cs s) : ∀ c ∈ cs, isNameChar c = true := by
  cases h with
  | index h => exact fun c hc => isNameChar_of_isDigit (h.decimal c hc)
  | field _ hname _ => exact hname

theorem Head.ne_nil (h : Head cs s) : cs ≠ [] := by
  cases h with
  | index h => exact h.nonempty
  | field hne _ _ => exact hne

end Characters

/-! ## The readers -/

section Readers

variable {cs p sign digits : List Char} {n fuel : Nat} {s : Segment} {ss : List Segment}

theorem numeral_iff : Numeral digits n ↔
    (if digits.isEmpty || !digits.all isDigit then none
      else if digitsValue digits < placeBound then some (digitsValue digits) else none) = some n := by
  constructor
  · rintro ⟨hne, hdigits, hvalue, hlt⟩
    have hall : digits.all isDigit = true := List.all_eq_true.2 hdigits
    have hempty : digits.isEmpty = false := by simpa using hne
    have hvalue : digitsValue digits = n := hvalue
    have hlt : n < placeBound := hlt
    simp [hall, hempty, hvalue, hlt]
  · intro h
    split at h
    · contradiction
    · next hshape =>
      split at h
      · next hlt =>
        obtain rfl := Option.some.inj h
        simp only [Bool.or_eq_true, not_or, Bool.not_eq_true', Bool.not_eq_false,
          List.isEmpty_iff] at hshape
        exact ⟨hshape.1, List.all_eq_true.1 hshape.2, rfl, hlt⟩
      · contradiction

/-- **A number** is read from a numeral with an optional plus sign. -/
theorem readNat?_eq_some_iff : readNat? placeBound cs = some n ↔
    ∃ sign digits, (sign = [] ∨ sign = ['+']) ∧ cs = sign ++ digits ∧ Numeral digits n := by
  constructor
  · intro h
    dsimp only [readNat?] at h
    split at h
    · next rest => exact ⟨['+'], rest, .inr rfl, rfl, numeral_iff.2 h⟩
    · exact ⟨[], cs, .inl rfl, rfl, numeral_iff.2 h⟩
  · rintro ⟨sign, digits, hsign, rfl, h⟩
    obtain rfl | rfl := hsign
    · have hplus : ∀ rest, digits ≠ '+' :: rest := fun rest heq => by
        have := h.decimal '+' (heq ▸ List.mem_cons_self)
        contradiction
      unfold readNat?
      split
      · next rest heq => exact absurd (heq : digits = '+' :: rest) (hplus rest)
      · exact numeral_iff.1 h
    · exact numeral_iff.1 h

/-- A sign and digits have no blank. -/
theorem Numeral.isBlank_eq_false (h : Numeral digits n) (hsign : sign = [] ∨ sign = ['+']) :
    ∀ c ∈ sign ++ digits, isBlank c = false := by
  intro c hc
  obtain hc | hc := List.mem_append.1 hc
  · obtain rfl | rfl := hsign
    · contradiction
    · rw [List.mem_singleton.1 hc]
      decide
  · exact isBlank_of_isDigit (h.decimal c hc)

/-- What stands in brackets is read as a number if it is one, blanks aside. -/
theorem bracketed_of_readNat? {inner : List Char} (h : readNat? placeBound (trim inner) = some n) :
    Bracketed ('[' :: (inner ++ [']'])) n := by
  obtain ⟨sign, digits, hsign, htrim, hdigits⟩ := readNat?_eq_some_iff.1 h
  obtain ⟨before, after, hinner, hbefore, hafter⟩ := trim_between inner
  rw [hinner, htrim]
  exact .intro hbefore hsign hdigits hafter

/-- The first closing bracket is the one that belongs to the number. -/
theorem Bracketed.exists_inner (h : Bracketed cs n) : ∃ inner, cs = '[' :: (inner ++ [']']) ∧
    ']' ∉ inner ∧ readNat? placeBound (trim inner) = some n := by
  cases h with
  | @intro before sign digits after _ hbefore hsign hdigits hafter =>
    have hblank := hdigits.isBlank_eq_false hsign
    have hspace {cs : List Char} (h : ∀ c ∈ cs, isBlank c = true) : ']' ∉ cs := fun hm =>
      absurd (h _ hm) (by decide)
    have hmiddle : ']' ∉ sign ++ digits := fun hm => by
      obtain hm | hm := List.mem_append.1 hm
      · obtain rfl | rfl := hsign <;> simp at hm
      · exact absurd (hdigits.decimal _ hm) (by decide)
    have htrim : trim (before ++ (sign ++ digits) ++ after) = sign ++ digits :=
      trim_append hbefore hafter (by simp [hdigits.nonempty])
        (fun c hc => hblank c (List.mem_of_head? hc)) fun c hc => hblank c (List.mem_of_getLast? hc)
    refine ⟨_, rfl, ?_, readNat?_eq_some_iff.2 ⟨sign, digits, hsign, htrim, hdigits⟩⟩
    rw [List.mem_append, List.mem_append, not_or, not_or]
    exact ⟨⟨hspace hbefore, hmiddle⟩, hspace hafter⟩

/-- Numbers in brackets begin with a bracket, if there are any. -/
theorem Places.head? (h : Places cs ss) : ∀ c, cs.head? = some c → c = '[' := by
  cases h with
  | nil => exact fun _ => nofun
  | cons hgroup _ =>
    obtain ⟨inner, rfl, -⟩ := hgroup.exists_inner
    exact fun c hc => (Option.some.inj hc).symm

theorem places_nil_iff : Places [] ss ↔ ss = [] := by
  refine ⟨fun h => ?_, fun h => h ▸ .nil⟩
  generalize hcs : ([] : List Char) = cs at h
  cases h with
  | nil => rfl
  | cons hgroup _ =>
    obtain ⟨inner, rfl, -⟩ := hgroup.exists_inner
    contradiction

/-- One number in brackets is read, and then those behind it. -/
theorem places_cons_eq_ok_iff {c : Char} {rest : List Char} : places (fuel + 1) (c :: rest) = .ok ss ↔
    ∃ inner after n others, cutAt? [']'] rest = some (inner, after) ∧
      readNat? placeBound (trim inner) = some n ∧ (∀ d, after.head? = some d → d = '[') ∧
      places fuel after = .ok others ∧ ss = .index n :: others := by
  rw [places]
  constructor
  · intro h
    split at h
    · contradiction
    · next inner after hcut =>
      split at h
      · contradiction
      · next n hn =>
        split at h
        · exact ⟨inner, [], n, [], hcut, hn, fun _ hd => absurd hd (Option.some_ne_none _).symm,
            by rw [places], (Except.ok.inj h).symm⟩
        · next d tail =>
          split at h
          · next hd =>
            obtain ⟨others, hothers, rfl⟩ := map_eq_ok.1 h
            exact ⟨inner, _, n, others, hcut, hn, fun c hc => Option.some.inj hc ▸ hd, hothers, rfl⟩
          · contradiction
  · rintro ⟨inner, after, n, others, hcut, hn, hopen, hothers, rfl⟩
    simp only [hcut, hn]
    cases after with
    | nil =>
      rw [places] at hothers
      rw [Except.ok.inj hothers]
    | cons d tail =>
      dsimp only
      rw [if_pos (hopen d rfl), hothers]
      rfl

/-- **Numbers in brackets** are read exactly as the grammar says, if there is enough fuel. -/
theorem places_eq_ok_iff (hfuel : cs.length ≤ fuel) (hopen : ∀ c, cs.head? = some c → c = '[') :
    places fuel cs = .ok ss ↔ Places cs ss := by
  induction fuel generalizing cs ss with
  | zero =>
    obtain rfl := List.length_eq_zero_iff.1 (Nat.le_zero.1 hfuel)
    rw [places, places_nil_iff, Except.ok.injEq, eq_comm]
  | succ fuel ih =>
    cases cs with
    | nil => rw [places, places_nil_iff, Except.ok.injEq, eq_comm]
    | cons c rest =>
      obtain rfl : c = '[' := hopen c rfl
      have hless {inner after : List Char} (h : rest = inner ++ [']'] ++ after) :
          after.length ≤ fuel := by
        rw [h] at hfuel
        simp only [List.length_cons, List.length_append] at hfuel
        omega
      rw [places_cons_eq_ok_iff]
      constructor
      · rintro ⟨inner, after, n, others, hcut, hn, hopen, hothers, rfl⟩
        have hrest := eq_of_cutAt? hcut
        have hcs : '[' :: rest = '[' :: (inner ++ [']']) ++ after := congrArg ('[' :: ·) hrest
        rw [hcs]
        exact .cons (bracketed_of_readNat? hn) ((ih (hless hrest) hopen).1 hothers)
      · intro h
        generalize hcs : '[' :: rest = cs at h
        cases h with
        | nil => contradiction
        | @cons group after n others hgroup hothers =>
          obtain ⟨inner, rfl, hinner, hn⟩ := hgroup.exists_inner
          have hrest : rest = inner ++ [']'] ++ after := (List.cons.inj hcs).2
          have hcut : cutAt? [']'] rest = some (inner, after) := by
            rw [hrest, List.append_assoc]
            exact cutAt?_append_cons hinner
          exact ⟨inner, after, n, others, hcut, hn, hothers.head?,
            (ih (hless hrest) hothers.head?).2 hothers, rfl⟩

/-- **The head of a part** is read exactly as the grammar says. -/
theorem head_eq_ok_iff (hne : cs ≠ []) : head cs = .ok s ↔ Head cs s := by
  have hplus (hdigits : cs.all isDigit = true) {n : Nat} :
      readNat? placeBound cs = some n ↔ Numeral cs n := by
    refine readNat?_eq_some_iff.trans ⟨?_, fun h => ⟨[], cs, .inl rfl, rfl, h⟩⟩
    rintro ⟨sign, digits, rfl | rfl, rfl, h⟩
    · exact h
    · contradiction
  unfold head
  constructor
  · intro h
    split at h
    · next hdigits =>
      split at h
      · next n hn =>
        obtain rfl := Except.ok.inj h
        exact .index ((hplus hdigits).1 hn)
      · contradiction
    · next hdigits =>
      split at h
      · next hname =>
        obtain rfl := Except.ok.inj h
        exact .field hne (List.all_eq_true.1 hname) fun hall => hdigits (List.all_eq_true.2 hall)
      · contradiction
  · intro h
    cases h with
    | index h =>
      have hdigits := List.all_eq_true.2 h.decimal
      rw [if_pos hdigits, (hplus hdigits).2 h]
    | field _ hname hdigits =>
      rw [if_neg fun hall => hdigits (List.all_eq_true.1 hall), if_pos (List.all_eq_true.2 hname)]

theorem Part.ne_nil (h : Part cs ss) : cs ≠ [] := by
  cases h with
  | head hhead _ => exact List.append_ne_nil_of_left_ne_nil hhead.ne_nil _
  | bare hgroups =>
    rintro rfl
    cases places_nil_iff.1 hgroups

/-- A part writes something. -/
theorem Part.exists_cons (h : Part cs ss) : ∃ s more, ss = s :: more := by
  cases h with
  | head | bare => exact ⟨_, _, rfl⟩

/-- The first bracket of a part is where its head ends. -/
theorem span_bracket {name groups : List Char} (hname : ∀ c ∈ name, isNameChar c = true)
    (hopen : ∀ c, groups.head? = some c → c = '[') :
    (name ++ groups).takeWhile (· ≠ '[') = name ∧ (name ++ groups).dropWhile (· ≠ '[') = groups := by
  have hnone : ∀ c ∈ name, decide (c ≠ '[') = true := fun c hc => by
    simp only [decide_eq_true_eq]
    rintro rfl
    exact absurd (hname _ hc) (by decide)
  have hstop : groups.takeWhile (· ≠ '[') = [] ∧ groups.dropWhile (· ≠ '[') = groups := by
    cases groups with
    | nil => exact ⟨rfl, rfl⟩
    | cons c rest => simp [hopen c rfl]
  rw [List.takeWhile_append_of_pos hnone, List.dropWhile_append_of_pos hnone, hstop.1, hstop.2,
    List.append_nil]
  exact ⟨rfl, rfl⟩

/-- **A part of a path** is read exactly as the grammar says, blanks aside. -/
theorem part_eq_ok_iff : part cs = .ok ss ↔ Part (trim cs) ss := by
  unfold part
  generalize trim cs = cs
  have hsplit := List.takeWhile_append_dropWhile (p := (· ≠ '[')) (l := cs)
  have hopen : ∀ c, (cs.dropWhile (· ≠ '[')).head? = some c → c = '[' :=
    fun _ => eq_of_head?_dropWhile_ne
  have hfuel : (cs.dropWhile (· ≠ '[')).length ≤ cs.length := (List.dropWhile_sublist _).length_le
  dsimp only
  constructor
  · intro h
    split at h
    · contradiction
    · split at h
      · next hempty hname =>
        rw [List.isEmpty_iff.1 hname, List.nil_append] at hsplit
        have hgroups := (places_eq_ok_iff hfuel hopen).1 h
        rw [hsplit] at hgroups
        cases ss with
        | nil =>
          cases hgroups
          exact absurd rfl hempty
        | cons s ss => exact .bare hgroups
      · next hname =>
        obtain ⟨s, hs, h⟩ := bind_eq_ok.1 h
        obtain ⟨others, hothers, h⟩ := bind_eq_ok.1 h
        obtain rfl := Except.ok.inj h
        rw [← hsplit]
        exact .head ((head_eq_ok_iff fun hnil => hname (List.isEmpty_iff.2 hnil)).1 hs)
          ((places_eq_ok_iff hfuel hopen).1 hothers)
  · intro h
    rw [if_neg fun hempty => h.ne_nil (List.isEmpty_iff.1 hempty)]
    cases h with
    | @head name groups s others hhead hgroups =>
      obtain ⟨htake, hdrop⟩ := span_bracket hhead.isNameChar hgroups.head?
      rw [htake, hdrop, if_neg fun hempty => hhead.ne_nil (List.isEmpty_iff.1 hempty),
        (head_eq_ok_iff hhead.ne_nil).2 hhead,
        (places_eq_ok_iff (by simp) hgroups.head?).2 hgroups]
      rfl
    | bare hgroups =>
      obtain ⟨htake, hdrop⟩ := span_bracket (List.forall_mem_nil _) hgroups.head?
      rw [List.nil_append] at htake hdrop
      rw [htake, hdrop, if_pos List.isEmpty_nil]
      exact (places_eq_ok_iff (Nat.le_refl _) hgroups.head?).2 hgroups

/-- **Parts with points between them** are read exactly as the grammar says. -/
theorem parts_eq_ok_iff : parts (splitAt '.' cs) = .ok ss ↔ Dotted cs ss := by
  have hcons {p : List Char} {ps : List (List Char)} {ss : List Segment} :
      parts (p :: ps) = .ok ss ↔
        ∃ first, part p = .ok first ∧ ∃ others, parts ps = .ok others ∧ first ++ others = ss := by
    rw [parts, bind_eq_ok]
    refine exists_congr fun first => and_congr_right fun _ => bind_eq_ok.trans ?_
    exact exists_congr fun others => and_congr_right fun _ => ⟨Except.ok.inj, congrArg Except.ok⟩
  constructor
  · -- by induction on the length: what follows a point is shorter
    intro h
    induction hlen : cs.length using Nat.strong_induction_on generalizing cs ss with
    | _ n ih =>
      by_cases hpoint : '.' ∈ cs
      · obtain ⟨piece, rest, rfl, hpiece⟩ := List.eq_append_cons_of_mem hpoint
        rw [splitAt_append hpiece, hcons] at h
        obtain ⟨first, hfirst, others, hothers, rfl⟩ := h
        have hless : rest.length < n := by
          rw [← hlen, List.length_append, List.length_cons]
          omega
        exact .cons hpiece (part_eq_ok_iff.1 hfirst) (ih _ hless hothers rfl)
      · rw [splitAt_of_not_mem hpoint, hcons] at h
        obtain ⟨first, hfirst, others, hothers, rfl⟩ := h
        obtain rfl := Except.ok.inj hothers
        rw [List.append_nil]
        exact .last hpoint (part_eq_ok_iff.1 hfirst)
  · intro h
    induction h with
    | last hpoint hpart =>
      rw [splitAt_of_not_mem hpoint, hcons]
      exact ⟨_, part_eq_ok_iff.2 hpart, [], rfl, List.append_nil _⟩
    | cons hpoint hpart _ ih =>
      rw [splitAt_append hpoint, hcons]
      exact ⟨_, part_eq_ok_iff.2 hpart, _, ih, rfl⟩

end Readers

/-! ## The word `not` -/

section Negation

variable {cs tail : List Char} {s : Segment} {ss : List Segment} {w : String}

/-- What follows a name does not belong to it. -/
theorem takeWhile_append_of_head (h : ∀ c, tail.head? = some c → isNameChar c = false)
    (cs : List Char) : (cs ++ tail).takeWhile isNameChar = cs.takeWhile isNameChar := by
  have hstop : tail.takeWhile isNameChar = [] := by
    cases tail with
    | nil => rfl
    | cons c rest => exact List.takeWhile_cons_of_neg (by simp [h c rfl])
  rw [List.takeWhile_append, hstop, List.append_nil]
  split
  · next hlen => exact ((List.takeWhile_sublist _).eq_of_length hlen).symm
  · rfl

/-- The name that a part begins with is all that the part has of characters of names in front. -/
theorem Part.takeWhile (h : Part cs (.field w :: ss)) : cs.takeWhile isNameChar = w.toList := by
  cases h with
  | @head name groups _ _ hhead hgroups =>
    have hbracket : ∀ c, groups.head? = some c → isNameChar c = false := fun c hc => by
      rw [hgroups.head? c hc]
      rfl
    rw [takeWhile_append_of_head hbracket,
      List.takeWhile_eq_self_iff.2 fun c hc => hhead.isNameChar c hc]
    cases hhead with
    | field => exact String.toList_ofList.symm
  | bare hgroups => cases hgroups

/-- Blanks behind a text do not belong to the name that it begins with. -/
theorem takeWhile_trim (h : ∀ c, cs.head? = some c → isBlank c = false) :
    (trim cs).takeWhile isNameChar = cs.takeWhile isNameChar := by
  obtain ⟨before, after, hcs, hbefore, hafter⟩ := trim_between cs
  have hnone : before = [] := List.eq_nil_iff_forall_not_mem.2 fun c hc => by
    obtain ⟨d, rest, rfl⟩ := List.exists_cons_of_ne_nil (List.ne_nil_of_mem hc)
    have hblank := hbefore d List.mem_cons_self
    rw [h d (by rw [hcs]; rfl)] at hblank
    contradiction
  have hstop : ∀ c, after.head? = some c → isNameChar c = false := fun c hc => by
    refine Bool.eq_false_iff.2 fun hname => ?_
    have hblank := hafter c (List.mem_of_head? hc)
    rw [isBlank_of_isNameChar hname] at hblank
    contradiction
  rw [hnone, List.nil_append] at hcs
  calc (trim cs).takeWhile isNameChar
      _ = (trim cs ++ after).takeWhile isNameChar := (takeWhile_append_of_head hstop _).symm
      _ = cs.takeWhile isNameChar := by rw [← hcs]

/-- The name that a path begins with is what stands in front, if that is no blank. -/
theorem Dotted.takeWhile (h : Dotted cs (.field w :: ss))
    (hhead : ∀ c, cs.head? = some c → isBlank c = false) : cs.takeWhile isNameChar = w.toList := by
  generalize hss : Segment.field w :: ss = segments at h
  cases h with
  | last _ hpart =>
    subst hss
    rw [← takeWhile_trim hhead, hpart.takeWhile]
  | @cons piece rest first others _ hpart _ =>
    obtain ⟨s, more, rfl⟩ := hpart.exists_cons
    obtain rfl := (List.cons.inj hss).1
    have hpoint : ∀ c, ('.' :: rest).head? = some c → isNameChar c = false := fun c hc => by
      rw [← Option.some.inj hc]
      rfl
    have hpiece : ∀ c, piece.head? = some c → isBlank c = false := fun c hc =>
      hhead c (by rw [List.head?_append, hc, Option.some_or])
    rw [takeWhile_append_of_head hpoint, ← takeWhile_trim hpiece, hpart.takeWhile]

/-- **A path that begins with a root** does not begin with the word `not` and a blank. -/
theorem Dotted.negation_eq {root : Root} (h : Dotted cs (.field root.word :: ss)) :
    negation cs = (false, cs) := by
  unfold negation
  split
  · next c rest =>
    refine if_neg fun hc => ?_
    have hname : isNameChar c = false := Bool.eq_false_iff.2 fun hname => by
      rw [isBlank_of_isNameChar hname] at hc
      contradiction
    have hword := h.takeWhile fun d hd => by
      rw [← Option.some.inj hd]
      decide
    have hnot : ('n' :: 'o' :: 't' :: c :: rest).takeWhile isNameChar = ['n', 'o', 't'] := by
      simp [hname, show isNameChar 'n' = true by decide,
        show isNameChar 'o' = true by decide, show isNameChar 't' = true by decide]
    rw [hnot] at hword
    cases root <;> contradiction
  · rfl

/-- Blanks in front of a path do not matter. -/
theorem Dotted.trimStart (h : Dotted cs ss) : Dotted (trimStart cs) ss := by
  cases h with
  | last hpoint hpart =>
    refine .last (fun hm => hpoint ((List.dropWhile_sublist _).subset hm)) ?_
    rwa [trim_trimStart]
  | @cons piece rest first others hpoint hpart hrest =>
    have hcut : Text.trimStart (piece ++ '.' :: rest) = Text.trimStart piece ++ '.' :: rest := by
      rw [Text.trimStart, List.dropWhile_append]
      split
      · next hempty =>
        rw [Text.trimStart, List.isEmpty_iff.1 hempty]
        exact List.dropWhile_cons_of_neg (by decide)
      · rfl
    rw [hcut]
    refine .cons (fun hm => hpoint ((List.dropWhile_sublist _).subset hm)) ?_ hrest
    rwa [trim_trimStart]

/-- A path is not empty. -/
theorem Dotted.ne_nil (h : Dotted cs ss) : cs ≠ [] := by
  cases h with
  | last _ hpart =>
    rintro rfl
    exact hpart.ne_nil rfl
  | cons => exact List.append_ne_nil_of_right_ne_nil _ (List.cons_ne_nil _ _)

/-- **What stands between the markers** is a path behind an optional `not`, and is parted so. -/
theorem body_iff {root : Root} {negated : Bool} : Body negated cs (.field root.word :: ss) ↔
    ∃ path, negation cs = (negated, path) ∧ Dotted path (.field root.word :: ss) := by
  constructor
  · intro h
    cases h with
    | plain h => exact ⟨cs, h.negation_eq, h⟩
    | @negated blanks cs _ hne hblanks h =>
      obtain ⟨c, blanks, rfl⟩ := List.exists_cons_of_ne_nil hne
      refine ⟨_, ?_, h.trimStart⟩
      rw [← trimStart_append hblanks]
      exact if_pos (hblanks c List.mem_cons_self)
  · rintro ⟨path, hpath, h⟩
    unfold negation at hpath
    split at hpath
    · next c rest =>
      split at hpath
      · next hc =>
        obtain ⟨rfl, rfl⟩ := Prod.mk.inj hpath
        have hsplit := List.takeWhile_append_dropWhile (p := isBlank) (l := c :: rest)
        rw [← hsplit]
        exact .negated (by simp [hc]) (fun _ => List.mem_takeWhile_imp) h
      · obtain ⟨rfl, rfl⟩ := Prod.mk.inj hpath
        exact .plain h
    · obtain ⟨rfl, rfl⟩ := Prod.mk.inj hpath
      exact .plain h

end Negation

/-! ## References -/

section References

variable {cs : List Char} {root : Root} {path : List Segment} {negated : Bool} {e : Expression}
  {text : String}

theorem Root.ofWord?_eq_some_iff {word : String} : Root.ofWord? word = some root ↔ word = root.word := by
  unfold Root.ofWord?
  constructor
  · intro h
    split at h
    · next hw => exact Option.some.inj h ▸ hw
    · split at h
      · next hw => exact Option.some.inj h ▸ hw
      · split at h
        · next hw => exact Option.some.inj h ▸ hw
        · contradiction
  · rintro rfl
    cases root <;> decide

/-- **What stands between the markers** is read exactly as the grammar says, if the path is one that its
root can have. -/
theorem body_eq_ok_iff : body cs = .ok (root, path, negated) ↔
    Body negated (trim cs) (.field root.word :: path) ∧ Follows root path := by
  rw [body_iff]
  unfold body
  generalize negation (trim cs) = found
  obtain ⟨isNegated, rest⟩ := found
  dsimp only
  constructor
  · intro h
    split at h
    · contradiction
    · obtain ⟨segments, hparts, h⟩ := bind_eq_ok.1 h
      have hdotted := parts_eq_ok_iff.1 hparts
      split at h
      · next word path' =>
        split at h
        · contradiction
        · next root' hroot =>
          obtain rfl := Root.ofWord?_eq_some_iff.1 hroot
          split at h
          · contradiction
          · contradiction
          · next name others =>
            split at h
            · contradiction
            · next houtput =>
              obtain ⟨rfl, rfl, rfl⟩ : root' = root ∧ .field name :: others = path ∧
                  isNegated = negated := by simpa using Except.ok.inj h
              refine ⟨⟨rest, rfl, hdotted⟩, name, others, rfl, fun hstep => ?_⟩
              exact Decidable.by_contra fun hne => houtput ⟨hstep, hne⟩
      · contradiction
  · rintro ⟨⟨rest, hrest, hdotted⟩, name, others, rfl, hfollows⟩
    obtain ⟨rfl, rfl⟩ := Prod.mk.inj hrest
    have hempty : rest.isEmpty = false := by simpa using hdotted.ne_nil
    have hroot : Root.ofWord? root.word = some root := Root.ofWord?_eq_some_iff.2 rfl
    have houtput : ¬(root = .stepOutput ∧ others.head? ≠ some (.field "output")) :=
      fun h => h.2 (hfollows h.1)
    rw [hempty, if_neg Bool.false_ne_true, parts_eq_ok_iff.2 hdotted]
    dsimp only [bind, Except.bind]
    rw [hroot]
    exact if_neg houtput

/-- What stands between the markers of a text. -/
theorem between?_eq_some {inner : List Char} :
    between? cs = some inner ↔ cs = opening ++ inner ++ closing := by
  rw [between?, Option.bind_eq_some_iff]
  constructor
  · rintro ⟨rest, hrest, hinner⟩
    rw [stripPrefix?_eq_some.1 hrest, stripSuffix?_eq_some.1 hinner, List.append_assoc]
  · rintro rfl
    exact ⟨inner ++ closing, stripPrefix?_eq_some.2 (List.append_assoc ..),
      stripSuffix?_eq_some.2 rfl⟩

/-- The cause of a refusal does not matter where a text is read. -/
theorem parse_eq_ok_iff_chars : parse text = .ok e ↔ parseChars text.toList = .ok e := by
  unfold parse
  cases parseChars text.toList with
  | error => exact iff_of_false nofun nofun
  | ok a => rw [Except.mapError, Except.ok.injEq, Except.ok.injEq]

/-- **A reference** is read exactly from the texts that write it. -/
theorem parse_eq_ok_iff : parse text = .ok e ↔ e.WrittenAs text := by
  rw [parse_eq_ok_iff_chars, parseChars]
  constructor
  · intro h
    split at h
    · contradiction
    · next inner hinner =>
      obtain ⟨⟨root, path, negated⟩, hbody, rfl⟩ := map_eq_ok.1 h
      obtain ⟨hwritten, hfollows⟩ := body_eq_ok_iff.1 hbody
      exact ⟨rfl, ⟨inner, between?_eq_some.1 hinner, hwritten⟩, hfollows⟩
  · obtain ⟨raw, root, path, negated⟩ := e
    rintro ⟨rfl, ⟨inner, hinner, hwritten⟩, hfollows⟩
    rw [between?_eq_some.2 hinner]
    exact map_eq_ok.2 ⟨_, body_eq_ok_iff.2 ⟨hwritten, hfollows⟩, rfl⟩

end References

end Stepflow.Expression
