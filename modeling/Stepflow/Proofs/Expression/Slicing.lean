import Stepflow.Proofs.Expression.Cutting

/-!
# Reading a part with slices

`Expression.part` takes a part of a path to pieces as a list of characters. Here the same is done with
slices of the text at byte offsets: the first bracket is searched for, what stands in front of it and
from it on is sliced off, and so is, for every number in brackets, what stands between the brackets and
what follows them. A slice is out of range if an offset lies past the end or inside a character, or if
its end lies before its start. No slice is (`partBySlices_eq`).
-/

namespace Stepflow.Text

/-! ## Slices at byte offsets -/

/-- How many bytes a text has in UTF-8. -/
def byteLength : List Char → Nat
  | [] => 0
  | c :: rest => c.utf8Size + byteLength rest

/-- The text up to a byte offset, if the offset lies in it and between two characters. -/
def takeBytes? : Nat → List Char → Option (List Char)
  | 0, _ => some []
  | _ + 1, [] => none
  | n + 1, c :: rest =>
    if c.utf8Size ≤ n + 1 then (takeBytes? (n + 1 - c.utf8Size) rest).map (c :: ·) else none

/-- The text from a byte offset on, if the offset lies in it and between two characters. -/
def dropBytes? : Nat → List Char → Option (List Char)
  | 0, cs => some cs
  | _ + 1, [] => none
  | n + 1, c :: rest => if c.utf8Size ≤ n + 1 then dropBytes? (n + 1 - c.utf8Size) rest else none

/-- The text between two byte offsets, if both lie in it and between two characters and the first is
not behind the last. -/
def slice? (first last : Nat) (cs : List Char) : Option (List Char) :=
  if first ≤ last then (takeBytes? last cs).bind (dropBytes? first) else none

/-- The byte offset at which a character occurs first. -/
def offset? (c : Char) : List Char → Option Nat
  | [] => none
  | d :: rest => if d = c then some 0 else (offset? c rest).map (d.utf8Size + ·)

section Slices

variable {c : Char} {before middle after cs : List Char}

theorem byteLength_append (before after : List Char) :
    byteLength (before ++ after) = byteLength before + byteLength after := by
  induction before with
  | nil => exact (Nat.zero_add _).symm
  | cons c rest ih => rw [List.cons_append, byteLength, byteLength, ih, Nat.add_assoc]

/-- The bytes of a character are not none. -/
theorem byteLength_cons (c : Char) (rest : List Char) :
    ∃ n, byteLength (c :: rest) = n + 1 ∧ c.utf8Size ≤ n + 1 ∧ n + 1 - c.utf8Size = byteLength rest := by
  have hpos := c.utf8Size_pos
  have hlen : byteLength (c :: rest) = c.utf8Size + byteLength rest := rfl
  exact ⟨c.utf8Size + byteLength rest - 1, by omega, by omega, by omega⟩

theorem takeBytes?_append : takeBytes? (byteLength before) (before ++ after) = some before := by
  induction before with
  | nil => cases after <;> rfl
  | cons c rest ih =>
    obtain ⟨n, hlen, hle, hrest⟩ := byteLength_cons c rest
    rw [hlen, List.cons_append, takeBytes?, if_pos hle, hrest, ih, Option.map_some]

theorem dropBytes?_append : dropBytes? (byteLength before) (before ++ after) = some after := by
  induction before with
  | nil => cases after <;> rfl
  | cons c rest ih =>
    obtain ⟨n, hlen, hle, hrest⟩ := byteLength_cons c rest
    rw [hlen, List.cons_append, dropBytes?, if_pos hle, hrest, ih]

/-- **Offsets at which pieces of a text meet** are no offsets out of range. -/
theorem slice?_append : slice? (byteLength before) (byteLength (before ++ middle))
    (before ++ middle ++ after) = some middle := by
  have hle : byteLength before ≤ byteLength (before ++ middle) := by
    rw [byteLength_append]
    exact Nat.le_add_right ..
  rw [slice?, if_pos hle, takeBytes?_append, Option.bind_some, dropBytes?_append]

theorem offset?_eq_none (h : c ∉ cs) : offset? c cs = none := by
  induction cs with
  | nil => rfl
  | cons d rest ih =>
    rw [List.mem_cons, not_or] at h
    rw [offset?, if_neg (Ne.symm h.1), ih h.2, Option.map_none]

theorem offset?_append (h : c ∉ before) : offset? c (before ++ c :: after) = some (byteLength before) := by
  induction before with
  | nil => exact if_pos rfl
  | cons d rest ih =>
    rw [List.mem_cons, not_or] at h
    rw [List.cons_append, offset?, if_neg (Ne.symm h.1), ih h.2, Option.map_some, byteLength]

end Slices

end Stepflow.Text

namespace Stepflow.Expression

open Text

/-! ## A part -/

/-- Reads the numbers in brackets that `rest` begins with. The outer `none` is a slice out of range. -/
def placesBySlices : Nat → List Char → Option (Except SyntaxCause (List Segment))
  | _, [] => some (.ok [])
  | 0, _ :: _ => some (.error .unclosedBracket)
  | fuel + 1, c :: cs =>
    let rest := c :: cs
    match offset? ']' rest with
    | none => some (.error .unclosedBracket)
    | some close =>
      match slice? 1 close rest with
      | none => none
      | some digits =>
        match readNat? placeBound (trim digits) with
        | none => some (.error (.indexNotInteger (String.ofList digits)))
        | some n =>
          match dropBytes? (close + 1) rest with
          | none => none
          | some [] => some (.ok [.index n])
          | some (d :: after) =>
            if d = '[' then (placesBySlices fuel (d :: after)).map (·.map (.index n :: ·))
            else some (.error (.trailing (String.ofList (d :: after))))

/-- What stands in front of the first bracket of a part, and what stands from there on. -/
def partAtBracket (cs : List Char) : Option (List Char × List Char) :=
  match offset? '[' cs with
  | none => some (cs, [])
  | some pos => (takeBytes? pos cs).bind fun name => (dropBytes? pos cs).map (name, ·)

/-- **Reads one part of a path with slices at byte offsets.** The outer `none` is a slice out of
range. -/
def partBySlices (cs : List Char) : Option (Except SyntaxCause (List Segment)) :=
  let cs := trim cs
  if cs.isEmpty then some (.error .emptySegment)
  else
    match partAtBracket cs with
    | none => none
    | some (name, rest) =>
      if name.isEmpty then placesBySlices cs.length rest
      else
        match head name with
        | .error cause => some (.error cause)
        | .ok first => (placesBySlices cs.length rest).map (·.map (first :: ·))

/-- What stands in brackets, and what follows the brackets, is sliced off at the first closing one. -/
theorem slice_group {digits : List Char} (after : List Char) (h : ']' ∉ digits) :
    ∃ close, offset? ']' ('[' :: (digits ++ ']' :: after)) = some close ∧
      slice? 1 close ('[' :: (digits ++ ']' :: after)) = some digits ∧
      dropBytes? (close + 1) ('[' :: (digits ++ ']' :: after)) = some after := by
  have hbracket : ']' ∉ ['['] ++ digits := List.not_mem_cons_of_ne_of_not_mem (by decide) h
  have hslice : slice? (byteLength ['[']) (byteLength (['['] ++ digits))
      (['['] ++ digits ++ (']' :: after)) = some digits := slice?_append
  have hdrop : dropBytes? (byteLength (['['] ++ digits ++ [']'])) (['['] ++ digits ++ [']'] ++ after) =
      some after := dropBytes?_append
  rw [byteLength_append, List.append_assoc _ [']']] at hdrop
  exact ⟨_, offset?_append hbracket, hslice, hdrop⟩

/-- The numbers in brackets are sliced off as they are read. -/
theorem placesBySlices_eq (fuel : Nat) (cs : List Char) (hopen : ∀ c, cs.head? = some c → c = '[') :
    placesBySlices fuel cs = some (places fuel cs) := by
  induction fuel generalizing cs with
  | zero => cases cs <;> rfl
  | succ fuel ih =>
    cases cs with
    | nil => rfl
    | cons c cs =>
      obtain rfl : c = '[' := hopen c rfl
      rw [placesBySlices, places]
      by_cases hclose : ']' ∈ cs
      · obtain ⟨digits, after, rfl, hdigits⟩ := List.eq_append_cons_of_mem hclose
        obtain ⟨close, hoffset, hslice, hdrop⟩ := slice_group after hdigits
        simp only [hoffset, hslice, hdrop, cutAt?_append_cons hdigits]
        cases readNat? placeBound (trim digits) with
        | none => rfl
        | some n =>
          cases after with
          | nil => rfl
          | cons d after =>
            dsimp only
            split
            · next hd => rw [ih (d :: after) fun c hc => Option.some.inj hc ▸ hd, Option.map_some]
            · rfl
      · have hnone : offset? ']' ('[' :: cs) = none :=
          offset?_eq_none (by simp [hclose])
        simp only [hnone, cutAt?_eq_none hclose]

/-- A part is sliced at its first bracket. -/
theorem partAtBracket_eq (cs : List Char) :
    partAtBracket cs = some (cs.takeWhile (· ≠ '['), cs.dropWhile (· ≠ '[')) := by
  have hbefore : '[' ∉ cs.takeWhile (· ≠ '[') := fun hm => by
    simpa using List.mem_takeWhile_imp hm
  have hsplit := List.takeWhile_append_dropWhile (p := (· ≠ '[')) (l := cs)
  rw [partAtBracket]
  cases hrest : cs.dropWhile (· ≠ '[') with
  | nil =>
    rw [hrest, List.append_nil] at hsplit
    rw [hsplit] at hbefore ⊢
    rw [offset?_eq_none hbefore]
  | cons c rest =>
    have hhead : (cs.dropWhile (· ≠ '[')).head? = some c := by rw [hrest, List.head?_cons]
    have hc : c = '[' := eq_of_head?_dropWhile_ne hhead
    rw [hrest, hc] at hsplit
    generalize cs.takeWhile (· ≠ '[') = name at hbefore hsplit ⊢
    rw [← hsplit, offset?_append hbefore, hc]
    dsimp only
    rw [takeBytes?_append, dropBytes?_append]
    rfl

/-- **No slice is out of range**: a part read with slices is read, and read as it is without them. -/
theorem partBySlices_eq (cs : List Char) : partBySlices cs = some (part cs) := by
  unfold partBySlices part
  generalize trim cs = cs
  dsimp only
  split
  · rfl
  · rw [partAtBracket_eq]
    dsimp only
    rw [placesBySlices_eq _ _ fun _ => eq_of_head?_dropWhile_ne]
    split
    · rfl
    · cases head (cs.takeWhile (· ≠ '[')) with
      | error => rfl
      | ok first =>
        cases places cs.length (cs.dropWhile (· ≠ '[')) <;> rfl

end Stepflow.Expression
