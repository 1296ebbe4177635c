import Stepflow.CommandLine.Running
import Stepflow.Proofs.Expression.Pieces
import Stepflow.Proofs.Inputs

/-!
# Inputs from the words of a command line

The words of a command line that give inputs are read one after the other, and of two for one input the
later one counts (`get?_inputsOf`). A word is read as a value of the declared type, and the value has that
type, with one exception: a word for a number that is not finite is read as null (`accepts_iff_of_parse?`).
So the inputs of a command line pass the check of their types exactly if no such word counts
(`inputs_typed_exact`).
-/

namespace Stepflow

variable {t : InputType} {v : Value} {w : Workflow} {pairs : List String} {given given' : Fields}
  {pair name other word later : String}

/-! ## Words as values of a type -/

namespace InputType

/-- **A word overshoots a type**: the type is that of all numbers, and the word is read as one that is not
finite. -/
def Overshoots (t : InputType) (word : String) : Prop :=
  t = .float ∧ ∃ x, Decimal.readFloat? word.toList = some x ∧ x.isFinite = false

/-- Only a finite number is a value of the type of numbers. -/
theorem accepts_ofFloat {x : Float} : accepts .float (.ofFloat x) = x.isFinite := by
  unfold Value.ofFloat
  cases x.isFinite <;> rfl

/-- Other types are never overshot. -/
theorem accepts_of_parse? (ht : t ≠ .float) (h : t.parse? word = some v) : t.accepts v = true := by
  cases t with
  | float => contradiction
  | string =>
    obtain rfl := Option.some.inj h
    rfl
  | integer =>
    obtain ⟨n, -, rfl⟩ := Option.map_eq_some_iff.1 h
    rfl
  | boolean =>
    simp only [parse?] at h
    split at h
    · obtain rfl := Option.some.inj h
      rfl
    · split at h
      · obtain rfl := Option.some.inj h
        rfl
      · contradiction
  | object => exact (Option.filter_eq_some_iff.1 h).2
  | array => exact (Option.filter_eq_some_iff.1 h).2

/-- **What is read from a word has the type** exactly if the word does not overshoot it. -/
theorem accepts_iff_of_parse? (h : t.parse? word = some v) : t.accepts v = true ↔ ¬t.Overshoots word := by
  by_cases ht : t = .float
  · subst ht
    obtain ⟨x, hx, rfl⟩ := Option.map_eq_some_iff.1 h
    rw [accepts_ofFloat]
    constructor
    · rintro hfinite ⟨-, y, hy, hnot⟩
      obtain rfl := Option.some.inj (hx.symm.trans hy)
      rw [hfinite] at hnot
      contradiction
    · intro hover
      by_contra hnot
      exact hover ⟨rfl, x, hx, Bool.eq_false_iff.2 hnot⟩
  · exact iff_of_true (accepts_of_parse? ht h) fun hover => ht hover.1

/-- What is read from a word that overshoots is null. -/
theorem parse?_of_overshoots (h : t.Overshoots word) : t.parse? word = some .null := by
  obtain ⟨rfl, x, hx, hnot⟩ := h
  rw [parse?, hx, Option.map_some, Value.ofFloat, hnot]
  rfl

/-- **Infinity and "not a number" overshoot**, in letters of either case, with a sign or without. -/
theorem overshoots_of_word {sign body : List Char} (hsign : sign ∈ [[], ['+'], ['-']])
    (hbody : String.ofList (body.map Char.toLower) ∈ ["inf", "infinity", "nan"]) :
    InputType.float.Overshoots (String.ofList (sign ++ body)) := by
  have hvalue {word : String} (hword : word ∈ ["inf", "infinity", "nan"]) (negative : Bool) :
      ∃ x : Float, (if word = "inf" || word = "infinity" then
          some (if negative then -1.0 / 0.0 else 1.0 / 0.0)
        else if word = "nan" then some (0.0 / 0.0)
        else Decimal.readUnsigned? negative body) = some x ∧ x.isFinite = false := by
    simp only [List.mem_cons, List.not_mem_nil, or_false] at hword
    obtain rfl | rfl | rfl := hword <;> cases negative <;> exact ⟨_, rfl, by decide +kernel⟩
  refine ⟨rfl, ?_⟩
  rw [String.toList_ofList]
  simp only [List.mem_cons, List.not_mem_nil, or_false] at hsign
  obtain rfl | rfl | rfl := hsign
  · -- none of the words begins with a sign
    have hhead : body.head? ≠ some '+' ∧ body.head? ≠ some '-' := by
      cases body with
      | nil => decide
      | cons c rest =>
        constructor <;>
        · rintro ⟨⟩
          simp [← String.toList_inj] at hbody
    rw [List.nil_append]
    unfold Decimal.readFloat?
    split
    rename_i negative unsigned hsigned
    split at hsigned
    · exact absurd rfl hhead.1
    · exact absurd rfl hhead.2
    · obtain ⟨rfl, rfl⟩ := Prod.mk.inj hsigned
      exact hvalue hbody false
  · exact hvalue hbody false
  · exact hvalue hbody true

end InputType

namespace CommandLine

/-! ## Words that give inputs -/

/-- **A word gives an input**: before its first equals sign stands the name, and behind it the word that is
read. -/
structure Gives (pair name word : String) : Prop where
  /-- The three parts. -/
  eq : pair = name ++ "=" ++ word
  /-- There is no equals sign before this one. -/
  first : '=' ∉ name.toList

/-- **What is given last for an input**: a word that no later one for the same input follows. -/
def GivesLast (pairs : List String) (name word : String) : Prop :=
  ∃ before pair after, pairs = before ++ pair :: after ∧ Gives pair name word ∧
    ∀ p ∈ after, ∀ later, ¬Gives p name later

/-- **A word is read for an input**: as a value of its type, or as a text where none is declared. -/
def Reads (w : Workflow) (name word : String) (v : Value) : Prop :=
  match w.inputs.get? name with
  | none => v = .str word
  | some d => d.type.parse? word = some v

/-- One value at most is read from a word. -/
theorem Reads.unique {v' : Value} (h : Reads w name word v) (h' : Reads w name word v') : v = v' := by
  unfold Reads at h h'
  cases hd : w.inputs.get? name with
  | none =>
    rw [hd] at h h'
    exact h.trans h'.symm
  | some d =>
    rw [hd] at h h'
    exact Option.some.inj (h.symm.trans h')

theorem cutAt?_eq_some_iff_gives :
    Text.cutAt? ['='] pair.toList = some (name.toList, word.toList) ↔ Gives pair name word := by
  constructor
  · intro h
    obtain ⟨heq, hfirst⟩ := Text.cutAt?_eq_some_iff.1 h
    refine ⟨String.toList_inj.1 ?_, fun hm => ?_⟩
    · rw [heq, String.toList_append, String.toList_append]
      rfl
    · -- an equals sign in the name would come first
      obtain ⟨b, a, hname⟩ := List.append_of_mem hm
      have hearlier := hfirst b (a ++ ['='] ++ word.toList) (by rw [heq, hname]; simp)
      have hlength := congrArg List.length hname
      rw [List.length_append, List.length_cons] at hlength
      omega
  · rintro ⟨rfl, hfirst⟩
    have hequals : "=".toList = ['='] := rfl
    rw [String.toList_append, String.toList_append, List.append_assoc, hequals, List.singleton_append,
      Text.cutAt?_append_cons hfirst]

/-- A word gives one input at most. -/
theorem Gives.unique {name' word' : String} (h : Gives pair name word) (h' : Gives pair name' word') :
    name = name' ∧ word = word' := by
  have hcut := (cutAt?_eq_some_iff_gives.2 h).symm.trans (cutAt?_eq_some_iff_gives.2 h')
  obtain ⟨hname, hword⟩ := Prod.mk.inj (Option.some.inj hcut)
  exact ⟨String.toList_inj.1 hname, String.toList_inj.1 hword⟩

/-- With one more word at the end, that one is the last for the input that it gives. -/
theorem givesLast_append_iff (h : Gives pair other later) : GivesLast (pairs ++ [pair]) name word ↔
    if other = name then word = later else GivesLast pairs name word := by
  constructor
  · rintro ⟨before, p, after, heq, hp, hnone⟩
    obtain rfl | ⟨rest, p', rfl⟩ := List.eq_nil_or_concat' after
    · obtain ⟨-, rfl⟩ := List.append_singleton_inj.1 heq
      obtain ⟨hname, hword⟩ := hp.unique h
      rw [if_pos hname.symm, hword]
    · rw [← List.cons_append, ← List.append_assoc] at heq
      obtain ⟨rfl, rfl⟩ := List.append_singleton_inj.1 heq
      have hname : other ≠ name := by
        rintro rfl
        exact hnone pair (List.mem_append_right _ (List.mem_singleton_self _)) later h
      rw [if_neg hname]
      exact ⟨before, p, rest, rfl, hp, fun q hq => hnone q (List.mem_append_left _ hq)⟩
  · split
    · rename_i hname
      rintro rfl
      subst hname
      exact ⟨pairs, pair, [], rfl, h, List.forall_mem_nil _⟩
    · rename_i hname
      rintro ⟨before, p, after, rfl, hp, hnone⟩
      refine ⟨before, p, after ++ [pair], by rw [List.append_assoc, List.cons_append], hp, ?_⟩
      refine List.forall_mem_append.2 ⟨hnone, List.forall_mem_singleton.2 fun l hl => ?_⟩
      exact hname (h.unique hl).1

/-- Without words nothing is given. -/
theorem not_givesLast_nil : ¬GivesLast [] name word := by
  rintro ⟨before, p, after, heq, -⟩
  exact List.append_ne_nil_of_right_ne_nil before (List.cons_ne_nil p after) heq.symm

/-! ## Reading them -/

/-- A word that gives an input is read for it. -/
theorem inputOf_of_gives (h : Gives pair name word) :
    inputOf w pair = .ok (other, v) ↔ other = name ∧ Reads w name word v := by
  unfold inputOf Reads
  rw [cutAt?_eq_some_iff_gives.2 h]
  simp only [String.ofList_toList]
  cases w.inputs.get? name with
  | none => simp [eq_comm]
  | some d =>
    cases hd : d.type.parse? word with
    | none => simp [hd]
    | some v' => simp [hd, eq_comm]

/-- Only a word that gives an input is read. -/
theorem exists_gives_of_inputOf {r : String × Value} (h : inputOf w pair = .ok r) :
    ∃ name word, Gives pair name word := by
  unfold inputOf at h
  split at h
  · contradiction
  · rename_i key value hcut
    refine ⟨String.ofList key, String.ofList value, cutAt?_eq_some_iff_gives.1 ?_⟩
    rw [String.toList_ofList, String.toList_ofList, hcut]

theorem inputsOf_append_eq_ok_iff : inputsOf w (pairs ++ [pair]) = .ok given ↔
    ∃ before k v, inputsOf w pairs = .ok before ∧ inputOf w pair = .ok (k, v) ∧
      given = Table.insert before k v := by
  have happend : inputsOf w (pairs ++ [pair]) = inputsOf w pairs >>= fun before =>
      (inputOf w pair).map fun r => before.insert r.1 r.2 := by
    unfold inputsOf
    rw [List.foldlM_append]
    simp only [List.foldlM_cons, List.foldlM_nil, bind_pure]
  rw [happend, Expression.bind_eq_ok]
  constructor
  · rintro ⟨before, hbefore, hpair⟩
    cases hr : inputOf w pair with
    | error causes =>
      rw [hr] at hpair
      contradiction
    | ok r =>
      rw [hr] at hpair
      exact ⟨before, r.1, r.2, hbefore, rfl, (Except.ok.inj hpair).symm⟩
  · rintro ⟨before, k, v, hbefore, hpair, rfl⟩
    exact ⟨before, hbefore, by rw [hpair]; rfl⟩

/-- **What is read from the words of a command line** is, for each input, what is read from the last word
that gives it. -/
theorem get?_inputsOf (h : inputsOf w pairs = .ok given) :
    given.get? name = some v ↔ ∃ word, GivesLast pairs name word ∧ Reads w name word v := by
  -- from the end, as it is the last word that counts
  induction pairs using List.reverseRecOn generalizing given with
  | nil =>
    obtain rfl := Except.ok.inj h
    exact iff_of_false nofun fun ⟨_, hlast, _⟩ => not_givesLast_nil hlast
  | append_singleton pairs pair ih =>
    obtain ⟨before, k, value, hbefore, hpair, rfl⟩ := inputsOf_append_eq_ok_iff.1 h
    obtain ⟨other, later, hgives⟩ := exists_gives_of_inputOf hpair
    obtain ⟨rfl, hreads⟩ := (inputOf_of_gives hgives).1 hpair
    rw [Table.get?_insert]
    split
    · rename_i hname
      subst hname
      constructor
      · rintro ⟨⟩
        exact ⟨later, (givesLast_append_iff hgives).2 (by rw [if_pos rfl]), hreads⟩
      · rintro ⟨word, hlast, hword⟩
        rw [givesLast_append_iff hgives, if_pos rfl] at hlast
        subst hlast
        rw [hreads.unique hword]
    · rename_i hname
      rw [ih hbefore]
      simp only [givesLast_append_iff hgives, if_neg hname]

end CommandLine

/-! ## The check of types -/

namespace Workflow

variable {d : InputDeclaration}

/-- **Given inputs pass the check of their types**: each that is declared and given is settled, and stays. -/
def PassesTypes (w : Workflow) (given : Fields) : Prop :=
  ∀ name d v, (name, d) ∈ w.inputs → given.get? name = some v → w.settleInput given name d = .ok given

theorem settleInput_eq_ok_self_iff (hv : given.get? name = some v) :
    w.settleInput given name d = .ok given ↔ d.type.accepts v = true := by
  unfold settleInput
  rw [hv]
  cases haccepts : d.type.accepts v <;> simp [haccepts]

end Workflow

namespace CommandLine

/-- **How far the inputs of a command line are of their declared types.** -/
structure TypedExactly (w : Workflow) (pairs : List String) (given : Fields) : Prop where
  /-- What is given for an input is of its type, unless the word that counts overshoots it. -/
  typed : ∀ name d v, (name, d) ∈ w.inputs → given.get? name = some v →
    (d.type.accepts v = true ↔ ∀ word, GivesLast pairs name word → ¬d.type.Overshoots word)
  /-- The check of types is passed, unless a word that counts overshoots. -/
  passes : w.PassesTypes given ↔
    ∀ name d word, (name, d) ∈ w.inputs → GivesLast pairs name word → ¬d.type.Overshoots word
  /-- A run that is refused for the type of an input was given null in place of such a number. -/
  refused : ∀ name expected v, w.resolveInputs given = .error (.mistyped w.name name expected v) →
    v = .null ∧ ∃ word, GivesLast pairs name word ∧ expected.Overshoots word

/-- **Inputs of a command line are of their declared types**, up to numbers that are not finite. Whatever is
read from a word as a value of a type has the type, unless the word is for a number and overshoots; and the
inputs that are read from the words of a command line pass the check of their types exactly if none of the
words that count overshoots. -/
theorem inputsOf_typed_exact (hw : w.inputs.Sorted) :
    (∀ t word v, InputType.parse? t word = some v → (t.accepts v = true ↔ ¬t.Overshoots word)) ∧
      ∀ pairs given, inputsOf w pairs = .ok given → TypedExactly w pairs given := by
  refine ⟨fun t word v => InputType.accepts_iff_of_parse?, fun pairs given hgiven => ?_⟩
  have hdeclared {name : String} {d : InputDeclaration} (hm : (name, d) ∈ w.inputs) {word : String}
      {v : Value} : Reads w name word v ↔ d.type.parse? word = some v := by
    unfold Reads
    rw [(Table.get?_eq_some_iff hw).2 hm]
  -- a word that counts and overshoots leaves null
  have hnull {name : String} {d : InputDeclaration} {word : String} (hm : (name, d) ∈ w.inputs)
      (hlast : GivesLast pairs name word) (hover : d.type.Overshoots word) :
      given.get? name = some .null ∧ d.type.accepts .null = false := by
    have hreads : Reads w name word .null := (hdeclared hm).2 (InputType.parse?_of_overshoots hover)
    refine ⟨(get?_inputsOf hgiven).2 ⟨word, hlast, hreads⟩, ?_⟩
    rw [hover.1]
    rfl
  have htyped : ∀ name d v, (name, d) ∈ w.inputs → given.get? name = some v →
      (d.type.accepts v = true ↔ ∀ word, GivesLast pairs name word → ¬d.type.Overshoots word) := by
    intro name d v hm hv
    constructor
    · intro haccepts word hlast hover
      obtain ⟨hv', hno⟩ := hnull hm hlast hover
      obtain rfl := Option.some.inj (hv.symm.trans hv')
      rw [hno] at haccepts
      contradiction
    · intro hnone
      obtain ⟨word, hlast, hreads⟩ := (get?_inputsOf hgiven).1 hv
      exact (InputType.accepts_iff_of_parse? ((hdeclared hm).1 hreads)).2 (hnone word hlast)
  refine
    { typed := htyped
      passes := ⟨fun hpass name d word hm hlast hover => ?_, fun hnone name d v hm hv => ?_⟩
      refused := fun name expected v herror => ?_ }
  · have hv := (hnull hm hlast hover).1
    have haccepts := (Workflow.settleInput_eq_ok_self_iff hv).1 (hpass name d _ hm hv)
    exact (htyped name d _ hm hv).1 haccepts word hlast hover
  · exact (Workflow.settleInput_eq_ok_self_iff hv).2
      ((htyped name d v hm hv).2 fun word hlast => hnone name d word hm hlast)
  · obtain ⟨name, d, hm, hrefuses, -⟩ := (Workflow.settleInputs_eq_error_iff hw).1 herror
    cases hrefuses with
    | mistyped hv hno =>
      obtain ⟨word, hlast, hreads⟩ := (get?_inputsOf hgiven).1 hv
      have hover : d.type.Overshoots word := by
        by_contra hnot
        rw [(InputType.accepts_iff_of_parse? ((hdeclared hm).1 hreads)).2 hnot] at hno
        contradiction
      exact ⟨Option.some.inj (hv.symm.trans (hnull hm hlast hover).1), word, hlast, hover⟩

end CommandLine

namespace Sample

/-- A workflow with a number and a whole number. -/
def measuring : Workflow :=
  { Workflow.empty "main" with
    inputs := [("depth", { type := .integer }), ("rate", { type := .float })]
    steps := [Step.call "first" "make"] }

theorem measuring_sorted : measuring.inputs.Sorted := by
  unfold Table.Sorted
  decide

end Sample

namespace CommandLine

open Sample

theorem overshoots_nan : InputType.float.Overshoots "nan" :=
  @InputType.overshoots_of_word [] ['n', 'a', 'n'] List.mem_cons_self (by decide)

/-- Of two rates the later one counts: where it is a finite number the inputs pass, and where it is none
they do not, and a run with them is refused. -/
theorem inputsOf_typed_exact_measuring :
    (∃ given, inputsOf measuring ["rate=nan", "depth=3", "rate=2"] = .ok given ∧
      measuring.PassesTypes given) ∧
    ∃ given, inputsOf measuring ["rate=2", "depth=3", "rate=nan"] = .ok given ∧
      ¬measuring.PassesTypes given ∧
      measuring.resolveInputs given = .error (.mistyped "main" "rate" .float .null) := by
  have hgood : inputsOf measuring ["rate=nan", "depth=3", "rate=2"] =
    .ok [("depth", .int 3), ("rate", .float 2)] := rfl
  have hbad : inputsOf measuring ["rate=2", "depth=3", "rate=nan"] =
    .ok [("depth", .int 3), ("rate", .null)] := rfl
  obtain ⟨-, htyped⟩ := inputsOf_typed_exact measuring_sorted
  have hgoodTyped := htyped _ _ hgood
  have hbadTyped := htyped _ _ hbad
  refine ⟨⟨_, hgood, hgoodTyped.passes.2 fun name d word hm hlast hover => ?_⟩,
    _, hbad, fun hpass => ?_, rfl⟩
  · simp only [measuring, List.mem_cons, Prod.mk.injEq, List.not_mem_nil, or_false] at hm
    obtain ⟨rfl, rfl⟩ | ⟨rfl, rfl⟩ := hm
    · exact absurd hover.1 (by decide)
    · have hrate := hgoodTyped.typed "rate" _ _ (List.mem_cons_of_mem _ List.mem_cons_self) rfl
      exact hrate.1 rfl word hlast hover
  · have hlast : GivesLast ["rate=2", "depth=3", "rate=nan"] "rate" "nan" :=
      ⟨["rate=2", "depth=3"], "rate=nan", [], rfl, ⟨rfl, by decide⟩, List.forall_mem_nil _⟩
    exact hbadTyped.passes.1 hpass "rate" _ "nan" (List.mem_cons_of_mem _ List.mem_cons_self) hlast
      overshoots_nan

/-- **Not every value read from a word is of the type it was read as.** -/
theorem not_accepts_of_parse? : ¬∀ t word v, InputType.parse? t word = some v → t.accepts v = true := by
  intro h
  have haccepts := h _ _ _ (InputType.parse?_of_overshoots overshoots_nan)
  contradiction

end CommandLine

end Stepflow
