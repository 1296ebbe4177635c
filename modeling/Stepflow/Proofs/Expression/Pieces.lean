import Mathlib.Data.List.Infix
import Stepflow.Proofs.Expression.Cutting

/-!
# How a text is cut into pieces

`Embedded.cut` looks for markers from left to right. Here it is said without the search: a marker is
where no other one begins before it (`Text.FirstAt`), a text is cut there and at the closing marker next
behind it, and the rest of the text is cut in the same way (`CutInto`). A text can be cut in one way
only, and is (`cut_eq_iff`); put together again, the pieces are the text (`CutInto.chars_eq`).
-/

namespace Stepflow.Text

variable {marker cs before before' after after' : List Char} {d : Char}

/-- **The first occurrence of a marker** in a text, told by what is before it and what is behind it. -/
structure FirstAt (marker cs before after : List Char) : Prop where
  /-- The marker stands between the two. -/
  eq : cs = before ++ marker ++ after
  /-- It begins nowhere before. -/
  first : ∀ b a, cs = b ++ marker ++ a → before.length ≤ b.length

/-- There is only one first occurrence. -/
theorem FirstAt.unique (h : FirstAt marker cs before after) (h' : FirstAt marker cs before' after') :
    before = before' ∧ after = after' := by
  have hlength := Nat.le_antisymm (h.first _ _ h'.eq) (h'.first _ _ h.eq)
  have heq := h.eq.symm.trans h'.eq
  rw [List.append_assoc, List.append_assoc] at heq
  obtain ⟨rfl, htail⟩ := List.append_inj heq hlength
  exact ⟨rfl, List.append_cancel_left htail⟩

/-- A marker that does not stand at the beginning of a text begins behind the first character. -/
theorem exists_cons_of_not_prefix (hm : stripPrefix? marker (d :: cs) = none)
    (h : d :: cs = before ++ marker ++ after) :
    ∃ b, before = d :: b ∧ cs = b ++ marker ++ after := by
  cases before with
  | nil =>
    rw [List.nil_append] at h
    rw [stripPrefix?_eq_some.2 h] at hm
    contradiction
  | cons c b =>
    obtain ⟨rfl, htail⟩ := List.cons.inj h
    exact ⟨b, rfl, htail⟩

theorem cutAt?_eq_none_iff : cutAt? marker cs = none ↔ ¬marker <:+: cs := by
  constructor
  · intro h
    induction cs with
    | nil =>
      rw [List.infix_nil]
      rintro rfl
      contradiction
    | cons d ds ih =>
      rw [cutAt?] at h
      split at h
      · contradiction
      · rename_i hm
        rintro ⟨b, a, hocc⟩
        obtain ⟨b, -, htail⟩ := exists_cons_of_not_prefix hm hocc.symm
        exact ih (Option.map_eq_none_iff.1 h) ⟨b, a, htail.symm⟩
  · intro h
    refine Option.eq_none_iff_forall_ne_some.2 fun p hp => h ?_
    exact ⟨p.1, p.2, (eq_of_cutAt? hp).symm⟩

/-- **Cutting at a marker** is cutting at its first occurrence. -/
theorem cutAt?_eq_some_iff : cutAt? marker cs = some (before, after) ↔
    FirstAt marker cs before after := by
  have hfirst {before after : List Char} (h : cutAt? marker cs = some (before, after)) :
      FirstAt marker cs before after := by
    refine ⟨eq_of_cutAt? h, ?_⟩
    induction cs generalizing before with
    | nil =>
      obtain ⟨r, -, he⟩ := Option.map_eq_some_iff.1 h
      exact fun b _ _ => (Prod.mk.inj he).1 ▸ Nat.zero_le _
    | cons d ds ih =>
      rw [cutAt?] at h
      split at h
      · rw [← (Prod.mk.inj (Option.some.inj h)).1]
        exact fun _ _ _ => Nat.zero_le _
      · rename_i hm
        obtain ⟨⟨b, a⟩, hb, he⟩ := Option.map_eq_some_iff.1 h
        obtain ⟨rfl, rfl⟩ := Prod.mk.inj he
        intro b' a' hocc
        obtain ⟨b', rfl, htail⟩ := exists_cons_of_not_prefix hm hocc
        exact Nat.succ_le_succ (ih hb b' a' htail)
  refine ⟨hfirst, fun h => ?_⟩
  cases hc : cutAt? marker cs with
  | none => exact absurd ⟨before, after, h.eq.symm⟩ (cutAt?_eq_none_iff.1 hc)
  | some p =>
    obtain ⟨hbefore, hafter⟩ := (hfirst hc).unique h
    rw [← hbefore, ← hafter]

theorem hasMarker_iff : hasMarker marker cs = true ↔ marker <:+: cs := by
  rw [hasMarker, Option.isSome_iff_ne_none, ne_eq, cutAt?_eq_none_iff, Decidable.not_not]

end Stepflow.Text

namespace Stepflow.Embedded

open Text Expression

variable {cs before after : List Char} {ps : List Piece} {text : String}

/-- **How a text is cut into pieces**: at each opening marker, and at the closing marker next behind it.
-/
inductive CutInto : List Char → List Piece → Prop
  /-- There is no opening marker. -/
  | last {cs : List Char} : ¬opening <:+: cs → CutInto cs [.literal cs]
  /-- There is one, but no closing marker behind it. -/
  | unterminated {cs before after : List Char} : FirstAt opening cs before after →
      ¬closing <:+: after → CutInto cs [.literal before, .unterminated (opening ++ after)]
  /-- There are both; what is behind them is cut in the same way. -/
  | reference {cs before after inner rest : List Char} {ps : List Piece} :
      FirstAt opening cs before after → FirstAt closing after inner rest → CutInto rest ps →
      CutInto cs (.literal before :: .reference (opening ++ inner ++ closing) :: ps)

/-- The characters of a piece. -/
def Piece.chars : Piece → List Char
  | .literal cs | .reference cs | .unterminated cs => cs

/-- **Nothing is lost or said twice** when a text is cut. -/
theorem CutInto.chars_eq (h : CutInto cs ps) : ps.flatMap Piece.chars = cs := by
  induction h with
  | last _ => simp [Piece.chars]
  | unterminated hopen _ => rw [hopen.eq]; simp [Piece.chars]
  | reference hopen hclose _ ih => rw [hopen.eq, hclose.eq]; simp [Piece.chars, ih]

theorem cut_of_unterminated (h : cutAt? opening cs = some (before, after))
    (h' : cutAt? closing after = none) :
    cut cs = [.literal before, .unterminated (opening ++ after)] := by
  rw [cut]
  split
  · rename_i hn
    rw [h] at hn
    contradiction
  · rename_i b a hb
    obtain ⟨rfl, rfl⟩ := Prod.mk.inj (Option.some.inj (h.symm.trans hb))
    split
    · rfl
    · rename_i hi
      rw [h'] at hi
      contradiction

theorem cut_cutInto (cs : List Char) : CutInto cs (cut cs) := by
  -- the induction is on the length, since what is left behind a reference is shorter
  induction hn : cs.length using Nat.strongRecOn generalizing cs with
  | _ n ih =>
    cases hopen : cutAt? opening cs with
    | none =>
      rw [cut_of_none hopen]
      exact .last (cutAt?_eq_none_iff.1 hopen)
    | some p =>
      obtain ⟨before, after⟩ := p
      cases hclose : cutAt? closing after with
      | none =>
        rw [cut_of_unterminated hopen hclose]
        exact .unterminated (cutAt?_eq_some_iff.1 hopen) (cutAt?_eq_none_iff.1 hclose)
      | some q =>
        obtain ⟨inner, rest⟩ := q
        rw [cut_of_some hopen hclose]
        refine .reference (cutAt?_eq_some_iff.1 hopen) (cutAt?_eq_some_iff.1 hclose)
          (ih rest.length ?_ rest rfl)
        have hlength := length_cutAt? hopen
        have hlength' := length_cutAt? hclose
        simp only [opening, closing, List.length_cons, List.length_nil] at hlength hlength'
        omega

/-- **A text is cut** in the one way in which it can be. -/
theorem cut_eq_iff : cut cs = ps ↔ CutInto cs ps := by
  refine ⟨fun h => h ▸ cut_cutInto cs, fun h => ?_⟩
  induction h with
  | last hnone => exact cut_of_none (cutAt?_eq_none_iff.2 hnone)
  | unterminated hopen hnone =>
    exact cut_of_unterminated (cutAt?_eq_some_iff.2 hopen) (cutAt?_eq_none_iff.2 hnone)
  | reference hopen hclose _ ih =>
    rw [cut_of_some (cutAt?_eq_some_iff.2 hopen) (cutAt?_eq_some_iff.2 hclose), ih]

/-- **A text that is one reference**, blanks at its ends aside: enclosed in the markers, with no other
opening one between them. -/
def IsWhole (text : String) : Prop :=
  ∃ inner, trim text.toList = opening ++ inner ++ closing ∧ ¬opening <:+: inner

/-- The closing marker does not complete an opening one. -/
theorem opening_infix_iff {inner : List Char} : opening <:+: inner ++ closing ↔ opening <:+: inner := by
  refine ⟨?_, fun h => h.trans (List.prefix_append _ _).isInfix⟩
  rintro ⟨b, a, h⟩
  obtain ⟨t, hinner, -⟩ | ⟨t, ht, hclosing⟩ := List.append_eq_append_iff.1 h
  · exact ⟨b, t, hinner.symm⟩
  · -- what the two markers share ends like the opening one, with a character that is not in the other
    have hlast : (inner ++ t).getLast? = some '{' := by
      rw [← ht, List.getLast?_append]
      rfl
    cases t with
    | nil =>
      rw [List.append_nil] at ht
      exact ⟨b, [], by rw [List.append_nil, ht]⟩
    | cons c t =>
      rw [List.getLast?_append_of_ne_nil _ (List.cons_ne_nil c t)] at hlast
      have hm : '{' ∈ closing := hclosing ▸ List.mem_append_left _ (List.mem_of_getLast? hlast)
      exact absurd hm (by decide)

theorem isSingle_iff : isSingle (trim text.toList) = true ↔ IsWhole text := by
  have hmarker {inner : List Char} : hasMarker opening (inner ++ closing) = false ↔
      ¬opening <:+: inner := by
    rw [← opening_infix_iff, ← hasMarker_iff, Bool.not_eq_true]
  constructor
  · intro h
    obtain ⟨inner, hinner⟩ := enclosed_of_isSingle h
    rw [hinner, isSingle, stripPrefix?_eq_some.2 (List.append_assoc _ _ _)] at h
    exact ⟨inner, hinner, hmarker.1 (Bool.not_eq_true' _ ▸ (Bool.and_eq_true_iff.1 h).2)⟩
  · rintro ⟨inner, hinner, hnone⟩
    rw [hinner, isSingle, stripPrefix?_eq_some.2 (List.append_assoc _ _ _)]
    dsimp only
    rw [stripSuffix?_eq_some.2 rfl, hmarker.2 hnone]
    rfl

end Stepflow.Embedded
