import Mathlib.Data.List.TakeWhile
import Stepflow.Expression.Evaluation

/-!
# References in texts

Between the markers of a reference there is no brace (`brace_not_mem_of_body`): names, places, points,
blanks and brackets are all that the reader takes.

A text is taken for a single reference if it is enclosed in the markers and holds no other opening one,
blanks at its ends aside. Cutting it up finds the same reference if its first closing marker is at its
end (`cut_of_single`). If it is not, the text is overlong, and what it is taken for is no reference
(`parse_of_overlong`).
-/

/-! ## What cutting a text loses -/

namespace Stepflow.Text

variable {c sep : Char} {cs pre suf marker rest before after : List Char}

theorem stripPrefix?_eq_some : stripPrefix? pre cs = some rest ↔ cs = pre ++ rest := by
  induction pre generalizing cs with
  | nil => rw [stripPrefix?, Option.some.injEq, List.nil_append]
  | cons p ps ih =>
    cases cs with
    | nil => simp only [stripPrefix?, List.cons_append, reduceCtorEq]
    | cons d ds =>
      rw [stripPrefix?]
      split
      · rename_i h
        rw [ih, h, List.cons_append, List.cons.injEq, and_iff_right rfl]
      · rename_i h
        rw [List.cons_append, List.cons.injEq]
        simp only [reduceCtorEq, Ne.symm h, false_and]

theorem stripSuffix?_eq_some : stripSuffix? suf cs = some rest ↔ cs = rest ++ suf := by
  rw [stripSuffix?, Option.map_eq_some_iff]
  constructor
  · rintro ⟨r, hr, rfl⟩
    have h := congrArg List.reverse (stripPrefix?_eq_some.1 hr)
    rwa [List.reverse_reverse, List.reverse_append, List.reverse_reverse] at h
  · rintro rfl
    exact ⟨rest.reverse, stripPrefix?_eq_some.2 List.reverse_append, List.reverse_reverse rest⟩

/-! ### Blanks -/

/-- A character that is not blank stays when the blanks in front are taken off. -/
theorem mem_trimStart (hc : isBlank c = false) (h : c ∈ cs) : c ∈ trimStart cs := by
  rw [← List.takeWhile_append_dropWhile (p := isBlank) (l := cs), List.mem_append] at h
  refine h.resolve_left fun ht => ?_
  rw [List.mem_takeWhile_imp ht] at hc
  contradiction

/-- A character that is not blank stays when a text is trimmed. -/
theorem mem_trim (hc : isBlank c = false) (h : c ∈ cs) : c ∈ trim cs :=
  List.mem_reverse.2 (mem_trimStart hc (List.mem_reverse.2 (mem_trimStart hc h)))

/-- A text is what is left when it is trimmed, between blanks. -/
theorem trim_between (cs : List Char) : ∃ before after, cs = before ++ trim cs ++ after ∧
    (∀ c ∈ before, isBlank c = true) ∧ ∀ c ∈ after, isBlank c = true := by
  refine ⟨cs.takeWhile isBlank, ((trimStart cs).reverse.takeWhile isBlank).reverse, ?_, ?_, ?_⟩
  · have h := List.takeWhile_append_dropWhile (p := isBlank) (l := (trimStart cs).reverse)
    have h' := congrArg List.reverse h
    rw [List.reverse_append, List.reverse_reverse] at h'
    rw [List.append_assoc]
    change cs = _ ++ (((trimStart cs).reverse.dropWhile isBlank).reverse ++ _)
    rw [h']
    exact (List.takeWhile_append_dropWhile (p := isBlank) (l := cs)).symm
  · exact fun c => List.mem_takeWhile_imp
  · exact fun c h => List.mem_takeWhile_imp (List.mem_reverse.1 h)

/-- Blanks in front of a text do not change what is left of it. -/
theorem trimStart_append (h : ∀ c ∈ before, isBlank c = true) :
    trimStart (before ++ cs) = trimStart cs :=
  List.dropWhile_append_of_pos h

/-- A text that begins with another character stays. -/
theorem trimStart_of_head (h : ∀ c, cs.head? = some c → isBlank c = false) : trimStart cs = cs := by
  cases cs with
  | nil => rfl
  | cons c rest => exact List.dropWhile_cons_of_neg (by simp [h c rfl])

/-- Nor do blanks behind it. -/
theorem trimEnd_append (h : ∀ c ∈ after, isBlank c = true) : trimEnd (cs ++ after) = trimEnd cs := by
  rw [trimEnd, List.reverse_append,
    List.dropWhile_append_of_pos fun c hc => h c (List.mem_reverse.1 hc), ← trimEnd]

theorem trimEnd_of_last (h : ∀ c, cs.getLast? = some c → isBlank c = false) : trimEnd cs = cs := by
  have hstart : trimStart cs.reverse = cs.reverse := trimStart_of_head (by simpa using h)
  rw [trimStart] at hstart
  rw [trimEnd, hstart, List.reverse_reverse]

/-- **A text without blanks at its ends** is what is left of it between blanks. -/
theorem trim_append (hbefore : ∀ c ∈ before, isBlank c = true) (hafter : ∀ c ∈ after, isBlank c = true)
    (hne : cs ≠ []) (hhead : ∀ c, cs.head? = some c → isBlank c = false)
    (hlast : ∀ c, cs.getLast? = some c → isBlank c = false) : trim (before ++ cs ++ after) = cs := by
  have hfirst : ∀ c, (cs ++ after).head? = some c → isBlank c = false := by
    obtain ⟨d, rest, rfl⟩ := List.exists_cons_of_ne_nil hne
    exact hhead
  rw [trim, List.append_assoc, trimStart_append hbefore, trimStart_of_head hfirst,
    trimEnd_append hafter, trimEnd_of_last hlast]

/-- Trimming takes the blanks in front off, whether or not they are there. -/
theorem trim_trimStart (cs : List Char) : trim (trimStart cs) = trim cs := by
  have hfirst : ∀ c, (trimStart cs).head? = some c → isBlank c = false := fun c hc => by
    have := List.head?_dropWhile_not isBlank cs
    rw [trimStart] at hc
    simpa [hc] using this
  rw [trim, trim, trimStart_of_head hfirst]

/-! ### Markers -/

/-- A text that is cut at a marker is the two pieces and the marker between them. -/
theorem eq_of_cutAt? (h : cutAt? marker cs = some (before, after)) :
    cs = before ++ marker ++ after := by
  induction cs generalizing before with
  | nil =>
    obtain ⟨r, hr, he⟩ := Option.map_eq_some_iff.1 h
    obtain ⟨rfl, rfl⟩ := Prod.mk.inj he
    exact stripPrefix?_eq_some.1 hr
  | cons d ds ih =>
    rw [cutAt?] at h
    split at h
    · rename_i r hr
      obtain ⟨rfl, rfl⟩ := Prod.mk.inj (Option.some.inj h)
      rw [stripPrefix?_eq_some.1 hr, List.nil_append]
    · obtain ⟨⟨b, a⟩, hb, he⟩ := Option.map_eq_some_iff.1 h
      obtain ⟨rfl, rfl⟩ := Prod.mk.inj he
      rw [ih hb, List.cons_append, List.cons_append]

/-- A marker does not occur where its first character does not. -/
theorem cutAt?_eq_none (h : c ∉ cs) : cutAt? (c :: marker) cs = none := by
  induction cs with
  | nil => rfl
  | cons d ds ih =>
    rw [List.mem_cons, not_or] at h
    rw [cutAt?, stripPrefix?, if_neg h.1, ih h.2]
    rfl

/-- The first marker behind a text without its first character is the next one. -/
theorem cutAt?_append_left (h : c ∉ pre) :
    cutAt? (c :: marker) (pre ++ cs) = (cutAt? (c :: marker) cs).map fun p => (pre ++ p.1, p.2) := by
  induction pre with
  | nil => exact Option.map_id'.symm
  | cons d ds ih =>
    rw [List.mem_cons, not_or] at h
    rw [List.cons_append, cutAt?, stripPrefix?, if_neg h.1, ih h.2]
    simp only [Option.map_map, Function.comp_def, List.cons_append]

/-- A text that begins with a marker is cut right there. -/
theorem cutAt?_marker : cutAt? (c :: marker) (c :: marker ++ rest) = some ([], rest) := by
  have h : stripPrefix? (c :: marker) (c :: (marker ++ rest)) = some rest := stripPrefix?_eq_some.2 rfl
  rw [List.cons_append, cutAt?, h]

/-- A text is cut at the first of the characters that mark it. -/
theorem cutAt?_append_cons (h : c ∉ pre) : cutAt? [c] (pre ++ c :: rest) = some (pre, rest) := by
  have hmarker : cutAt? [c] (c :: rest) = some ([], rest) := cutAt?_marker
  rw [cutAt?_append_left h, hmarker, Option.map_some, List.append_nil]

/-- What is left of a text from a character on begins with that character. -/
theorem eq_of_head?_dropWhile_ne {d : Char} (h : (cs.dropWhile (· ≠ c)).head? = some d) : d = c := by
  have hnot := List.head?_dropWhile_not (· ≠ c) cs
  rw [h] at hnot
  simpa using hnot

/-- A text in which a marker stands can be cut at the marker. -/
theorem exists_cutAt? (c : Char) (marker pre rest : List Char) :
    ∃ p, cutAt? (c :: marker) (pre ++ (c :: marker ++ rest)) = some p := by
  induction pre with
  | nil => exact ⟨_, cutAt?_marker⟩
  | cons d ds ih =>
    obtain ⟨p, hp⟩ := ih
    rw [List.cons_append, cutAt?]
    split
    · exact ⟨_, rfl⟩
    · rw [hp]
      exact ⟨_, rfl⟩

/-- The first marker of a text is still its first one when more follows. -/
theorem cutAt?_append_right (h : cutAt? marker cs = some (before, after)) :
    cutAt? marker (cs ++ rest) = some (before, after ++ rest) := by
  induction cs generalizing before with
  | nil =>
    obtain ⟨r, hr, he⟩ := Option.map_eq_some_iff.1 h
    obtain ⟨rfl, rfl⟩ := Prod.mk.inj he
    obtain ⟨rfl, rfl⟩ := List.append_eq_nil_iff.1 (stripPrefix?_eq_some.1 hr).symm
    cases rest <;> rfl
  | cons d ds ih =>
    rw [cutAt?] at h
    rw [List.cons_append, cutAt?]
    split at h
    · rename_i r hr
      obtain ⟨rfl, rfl⟩ := Prod.mk.inj (Option.some.inj h)
      have hm := stripPrefix?_eq_some.1 hr
      rw [← List.cons_append, hm, List.append_assoc, stripPrefix?_eq_some.2 rfl]
    · rename_i hn
      obtain ⟨⟨b, a⟩, hb, he⟩ := Option.map_eq_some_iff.1 h
      obtain ⟨rfl, rfl⟩ := Prod.mk.inj he
      -- the marker still stands further on, so it is too short to begin here because of what follows
      have hlen : marker.length ≤ (d :: ds).length := by
        rw [eq_of_cutAt? hb]
        simp only [List.length_cons, List.length_append]
        omega
      have hn' : stripPrefix? marker (d :: (ds ++ rest)) = none := by
        refine Option.eq_none_iff_forall_ne_some.2 fun r hr => ?_
        have hpre : marker <+: d :: ds ++ rest := ⟨r, (stripPrefix?_eq_some.1 hr).symm⟩
        obtain ⟨t, ht⟩ := List.prefix_of_prefix_length_le hpre (List.prefix_append _ rest) hlen
        rw [stripPrefix?_eq_some.2 ht.symm] at hn
        contradiction
      rw [hn', ih hb]
      rfl

/-- Every character of a text that is split, the separators aside, is in one of the pieces. -/
theorem mem_splitAt (hc : c ≠ sep) (h : c ∈ cs) : ∃ p ∈ splitAt sep cs, c ∈ p := by
  induction cs with
  | nil => contradiction
  | cons d ds ih =>
    rw [splitAt]
    split
    · rename_i hd
      obtain ⟨p, hp, hm⟩ := ih ((List.mem_cons.1 h).resolve_left fun he => hc (he.trans hd))
      exact ⟨p, List.mem_cons_of_mem _ hp, hm⟩
    · split
      · rename_i hs
        obtain rfl | h := List.mem_cons.1 h
        · exact ⟨[c], List.mem_singleton_self _, List.mem_singleton_self c⟩
        · obtain ⟨p, hp, -⟩ := ih h
          rw [hs] at hp
          contradiction
      · rename_i p ps hs
        obtain rfl | h := List.mem_cons.1 h
        · exact ⟨c :: p, List.mem_cons_self, List.mem_cons_self⟩
        · obtain ⟨q, hq, hm⟩ := ih h
          rw [hs] at hq
          obtain rfl | hq := List.mem_cons.1 hq
          · exact ⟨d :: q, List.mem_cons_self, List.mem_cons_of_mem d hm⟩
          · exact ⟨q, List.mem_cons_of_mem _ hq, hm⟩

end Stepflow.Text

/-! ## What the reader takes -/

namespace Stepflow.Expression

open Text

variable {cs : List Char} {bound fuel n : Nat} {s : Segment} {ss : List Segment}

/-- What succeeds after something else comes from what that succeeded with. -/
theorem bind_eq_ok {ε α β : Type} {x : Except ε α} {f : α → Except ε β} {b : β} :
    x >>= f = .ok b ↔ ∃ a, x = .ok a ∧ f a = .ok b := by
  cases x with
  | error e => exact ⟨nofun, nofun⟩
  | ok a => exact ⟨fun h => ⟨a, rfl, h⟩, fun ⟨_, ha, h⟩ => Except.ok.inj ha ▸ h⟩

theorem map_eq_ok {ε α β : Type} {x : Except ε α} {f : α → β} {b : β} :
    x.map f = .ok b ↔ ∃ a, x = .ok a ∧ f a = b := by
  cases x with
  | error e => exact ⟨nofun, nofun⟩
  | ok a => exact ⟨fun h => ⟨a, rfl, Except.ok.inj h⟩, fun ⟨_, ha, h⟩ => by cases ha; exact congrArg _ h⟩

theorem brace_not_blank : isBlank '}' = false := by decide

/-- Only digits and a sign are read as a number. -/
theorem brace_not_mem_of_readNat? (h : readNat? bound cs = some n) : '}' ∉ cs := by
  have hdigits {digits : List Char} (h : (if (digits.isEmpty || !digits.all isDigit) = true then none
      else if digitsValue digits < bound then some (digitsValue digits) else none) = some n) :
      '}' ∉ digits := by
    intro hm
    split at h
    · contradiction
    · rename_i hn
      rw [Bool.or_eq_true, not_or, Bool.not_eq_true', Bool.not_eq_false] at hn
      have hb := List.all_eq_true.1 hn.2 '}' hm
      contradiction
  dsimp only [readNat?] at h
  split at h
  · exact fun hm => hdigits h ((List.mem_cons.1 hm).resolve_left (by decide))
  · exact hdigits h

/-- The places in brackets behind a name have no brace. -/
theorem brace_not_mem_of_places (h : places fuel cs = .ok ss) (hb : ∀ c, cs.head? = some c → c = '[') :
    '}' ∉ cs := by
  induction fuel generalizing cs ss with
  | zero =>
    cases cs with
    | nil => exact List.not_mem_nil
    | cons c rest => contradiction
  | succ fuel ih =>
    cases cs with
    | nil => exact List.not_mem_nil
    | cons c rest =>
      rw [places] at h
      split at h
      · contradiction
      · rename_i digits after hcut
        split at h
        · contradiction
        · rename_i n hn
          have hdigits : '}' ∉ digits := fun hm =>
            brace_not_mem_of_readNat? hn (mem_trim brace_not_blank hm)
          have hafter : '}' ∉ after := by
            split at h
            · exact List.not_mem_nil
            · split at h
              · rename_i d tail hd
                obtain ⟨ss', hp, -⟩ := map_eq_ok.1 h
                exact ih hp fun c hc => (Option.some.inj hc).symm.trans hd
              · contradiction
          rw [eq_of_cutAt? hcut, hb c rfl]
          simp only [List.mem_cons, List.mem_append, List.not_mem_nil, hdigits, hafter, not_or]
          decide

/-- The name in front of a part has no brace. -/
theorem brace_not_mem_of_head (h : head cs = .ok s) : '}' ∉ cs := by
  intro hm
  unfold head at h
  split at h
  · rename_i hd
    have := List.all_eq_true.1 hd '}' hm
    contradiction
  · split at h
    · rename_i hn
      have := List.all_eq_true.1 hn '}' hm
      contradiction
    · contradiction

/-- A part of a path has no brace. -/
theorem brace_not_mem_of_part (h : part cs = .ok ss) : '}' ∉ cs := by
  intro hm
  -- the brace is in front of the first bracket, or from there on
  have hm := mem_trim brace_not_blank hm
  rw [← List.takeWhile_append_dropWhile (p := (· ≠ '[')) (l := trim cs), List.mem_append] at hm
  have hplaces {n : Nat} {ss : List Segment}
      (h : places n ((trim cs).dropWhile (· ≠ '[')) = .ok ss) :
      '}' ∉ (trim cs).dropWhile (· ≠ '[') :=
    brace_not_mem_of_places h fun _ => eq_of_head?_dropWhile_ne
  dsimp only [part] at h
  split at h
  · contradiction
  · split at h
    · rename_i hn
      rw [List.isEmpty_iff.1 hn] at hm
      exact hplaces h (hm.resolve_left List.not_mem_nil)
    · obtain ⟨first, hf, h⟩ := bind_eq_ok.1 h
      obtain ⟨others, ho, -⟩ := bind_eq_ok.1 h
      exact hm.elim (brace_not_mem_of_head hf) (hplaces ho)

/-- The parts of a path have no brace. -/
theorem brace_not_mem_of_parts {ps : List (List Char)} (h : parts ps = .ok ss) :
    ∀ p ∈ ps, '}' ∉ p := by
  induction ps generalizing ss with
  | nil => exact fun _ => nofun
  | cons p rest ih =>
    obtain ⟨first, hp, h⟩ := bind_eq_ok.1 h
    obtain ⟨others, hr, -⟩ := bind_eq_ok.1 h
    exact List.forall_mem_cons.2 ⟨brace_not_mem_of_part hp, ih hr⟩

/-- A brace stays when the word for the opposite is taken off. -/
theorem brace_mem_negation (h : '}' ∈ cs) : '}' ∈ (negation cs).2 := by
  unfold negation
  split
  · rename_i c rest
    split
    · refine mem_trimStart brace_not_blank ?_
      simpa using h
    · exact h
  · exact h

/-- **Between the markers of a reference** there is no brace. -/
theorem brace_not_mem_of_body {r : Root × List Segment × Bool} (h : body cs = .ok r) : '}' ∉ cs := by
  intro hm
  have hm := brace_mem_negation (mem_trim brace_not_blank hm)
  dsimp only [body] at h
  split at h
  · contradiction
  · obtain ⟨segments, hs, -⟩ := bind_eq_ok.1 h
    obtain ⟨p, hp, hb⟩ := mem_splitAt (show '}' ≠ '.' by decide) hm
    exact brace_not_mem_of_parts hs p hp hb

end Stepflow.Expression

/-! ## Texts that are taken for a single reference -/

namespace Stepflow

open Text Expression

namespace Expression

/-- A text that is enclosed in the markers has no blanks at its ends. -/
theorem trim_enclosed (inner : List Char) :
    trim (opening ++ inner ++ closing) = opening ++ inner ++ closing := by
  have hstart (rest : List Char) : trimStart ('$' :: rest) = '$' :: rest :=
    List.dropWhile_cons_of_neg (by decide)
  have hend (rest : List Char) : trimEnd (rest ++ ['}']) = rest ++ ['}'] := by
    rw [trimEnd, List.reverse_append, List.reverse_singleton, List.singleton_append,
      List.dropWhile_cons_of_neg (by decide), List.reverse_cons, List.reverse_reverse]
  have hsplit : opening ++ inner ++ closing = (opening ++ inner ++ ['}']) ++ ['}'] := by
    rw [closing, List.append_assoc _ ['}']]
    rfl
  rw [trim, show trimStart (opening ++ inner ++ closing) = opening ++ inner ++ closing from hstart _,
    hsplit, hend]

/-- A text that is enclosed in the markers is the reference that stands between them. -/
theorem parseChars_enclosed (inner : List Char) : parseChars (opening ++ inner ++ closing) =
    (body inner).map fun r => ⟨String.ofList (opening ++ inner ++ closing), r.1, r.2.1, r.2.2⟩ := by
  have hbetween : between? (opening ++ inner ++ closing) = some inner := by
    rw [between?, stripPrefix?_eq_some.2 (List.append_assoc _ _ _), Option.bind_some,
      stripSuffix?_eq_some.2 rfl]
  rw [parseChars, trim_enclosed, hbetween]

/-- A text that is enclosed in the markers and has a brace between them is no reference. -/
theorem parse_enclosed_of_brace {inner : List Char} (h : '}' ∈ inner) :
    ∃ e, parse (String.ofList (opening ++ inner ++ closing)) = .error e := by
  rw [parse, String.toList_ofList, parseChars_enclosed]
  cases hb : body inner with
  | error cause => exact ⟨_, rfl⟩
  | ok r => exact absurd h (brace_not_mem_of_body hb)

end Expression

namespace Embedded

variable {cs before after inner rest : List Char} {text : String}

theorem cut_of_none (h : cutAt? opening cs = none) : cut cs = [.literal cs] := by
  rw [cut]
  split
  · rfl
  · rename_i h'
    rw [h] at h'
    contradiction

theorem cut_of_some (h : cutAt? opening cs = some (before, after))
    (h' : cutAt? closing after = some (inner, rest)) :
    cut cs = .literal before :: .reference (opening ++ inner ++ closing) :: cut rest := by
  rw [cut]
  split
  · rename_i hn
    rw [h] at hn
    contradiction
  · rename_i b a hb
    obtain ⟨rfl, rfl⟩ := Prod.mk.inj (Option.some.inj (h.symm.trans hb))
    split
    · rename_i hn
      rw [h'] at hn
      contradiction
    · rename_i i r hi
      obtain ⟨rfl, rfl⟩ := Prod.mk.inj (Option.some.inj (h'.symm.trans hi))
      rfl

/-- Whether a text is taken for a single reference although its first closing marker is not at its
end. -/
def isOverlong (text : String) : Bool :=
  let cs := trim text.toList
  isSingle cs && (cutAt? closing cs).any fun p => !p.2.isEmpty

/-- What is taken for a single reference is enclosed in the markers. -/
theorem enclosed_of_isSingle (h : isSingle cs = true) : ∃ inner, cs = opening ++ inner ++ closing := by
  unfold isSingle at h
  split at h
  · contradiction
  · rename_i rest hr
    obtain ⟨y, hy⟩ := Option.isSome_iff_exists.1 (Bool.and_eq_true_iff.1 h).1
    have hr := stripPrefix?_eq_some.1 hr
    have hy := stripSuffix?_eq_some.1 hy
    obtain ⟨inner, -, he⟩ | ⟨shared, ho, hc⟩ := List.append_eq_append_iff.1 (hr.symm.trans hy)
    · exact ⟨inner, by rw [hr, he, List.append_assoc]⟩
    -- the two markers cannot overlap
    · cases shared with
      | nil => exact ⟨[], by rw [hr, List.append_nil]; exact congrArg _ hc.symm⟩
      | cons c tail =>
        have hc' : c = '}' := (List.cons.inj hc).1.symm
        have hm : '}' ∈ opening := by
          rw [ho, hc']
          exact List.mem_append_right _ List.mem_cons_self
        exact absurd hm (by decide)

/-- The opening marker has no closing one in it. -/
theorem cutAt?_opening_append (cs : List Char) : cutAt? closing (opening ++ cs) =
    (cutAt? closing cs).map fun p => (opening ++ p.1, p.2) :=
  cutAt?_append_left (by decide)

/-- Where the first closing marker of an enclosed text is: at its end, or at a brace that stands between
the markers. -/
theorem cutAt?_enclosed (inner : List Char) :
    cutAt? closing (inner ++ closing) = some (inner, []) ∨
      '}' ∈ inner ∧ ∃ b a, cutAt? closing (inner ++ closing) = some (b, a) ∧ a ≠ [] := by
  obtain ⟨⟨before, after⟩, hp⟩ := exists_cutAt? '}' ['}'] inner []
  rw [List.append_nil] at hp
  change cutAt? closing (inner ++ closing) = _ at hp
  have he := eq_of_cutAt? hp
  cases after with
  | nil =>
    rw [List.append_nil] at he
    rw [hp, List.append_cancel_right he]
    exact .inl rfl
  | cons c rest =>
    refine .inr ⟨?_, before, _, hp, nofun⟩
    rw [List.append_assoc] at he
    obtain ⟨t, -, ht⟩ | ⟨t, rfl, ht⟩ := List.append_eq_append_iff.1 he
    · have := congrArg List.length ht
      simp only [closing, List.length_append, List.length_cons, List.length_nil] at this
      omega
    · cases t with
      | nil =>
        have := congrArg List.length ht
        simp [closing] at this
      | cons d t =>
        rw [← (List.cons.inj ht).1]
        exact List.mem_append_right _ List.mem_cons_self

/-- **An overlong text** is not the reference that it is taken for. -/
theorem parse_of_overlong (h : isOverlong text = true) :
    ∃ e, parse (String.ofList (trim text.toList)) = .error e := by
  obtain ⟨hs, ha⟩ := Bool.and_eq_true_iff.1 h
  obtain ⟨inner, hi⟩ := enclosed_of_isSingle hs
  rw [hi, List.append_assoc, cutAt?_opening_append] at ha
  obtain he | ⟨hm, -⟩ := cutAt?_enclosed inner
  · rw [he] at ha
    contradiction
  · rw [hi]
    exact parse_enclosed_of_brace hm

/-- **A text that is taken for a single reference**, and is not overlong, is cut into that reference and
the blanks around it. -/
theorem cut_of_single (hs : isSingle (trim text.toList) = true) (ho : isOverlong text = false) :
    ∃ before after, cut text.toList =
      [.literal before, .reference (trim text.toList), .literal after] := by
  obtain ⟨before, after, htext, hbefore, hafter⟩ := trim_between text.toList
  obtain ⟨inner, hi⟩ := enclosed_of_isSingle hs
  have hblank {cs : List Char} (h : ∀ c ∈ cs, isBlank c = true) : '$' ∉ cs := fun hm =>
    absurd (h _ hm) (by decide)
  have hclosing : cutAt? closing (inner ++ closing) = some (inner, []) := by
    refine (cutAt?_enclosed inner).resolve_right ?_
    rintro ⟨-, b, a, hp, hne⟩
    rw [isOverlong, hs, Bool.true_and, hi, List.append_assoc, cutAt?_opening_append, hp] at ho
    exact hne (List.isEmpty_iff.1 (Bool.not_eq_false' _ ▸ ho))
  refine ⟨before, after, ?_⟩
  have hopening : cutAt? opening text.toList = some (before, inner ++ closing ++ after) := by
    rw [htext, hi, List.append_assoc before, List.append_assoc opening, List.append_assoc opening]
    rw [opening, cutAt?_append_left (hblank hbefore), cutAt?_marker]
    exact congrArg (fun b => some (b, _)) (List.append_nil before)
  rw [cut_of_some hopening (cutAt?_append_right hclosing), hi, List.nil_append,
    cut_of_none (cutAt?_eq_none (hblank hafter))]

end Embedded

end Stepflow
