import Mathlib.Data.List.Forall2
import Stepflow.Proofs.Expression.Pieces
import Stepflow.Proofs.Extraction

/-!
# Substitution keeps the text

A text that is not one reference is cut into pieces, and the pieces are put together again with the
value of each reference in the place of the reference. Nothing else of the text changes, and a value
that is put in is not looked at again, whatever it holds. If some piece cannot be replaced, the whole
fails as the first of these does. Resolving a value does this to its texts and leaves all else as it was
(`Resolved`); it fails as the first text does that fails. Both failures are one notion, `FirstFails`.
-/

namespace Stepflow

open Expression Embedded Validation

/-! ## The first failure -/

section First

variable {α β γ δ ε : Type} {f : α → Except ε β} {l l' : List α} {a : α} {e e' : ε} {x : Except ε γ}

/-- **The first failure in a list**: all before it succeeds. -/
def FirstFails (f : α → Except ε β) (l : List α) (e : ε) : Prop :=
  ∃ before a after, l = before ++ a :: after ∧ (∀ b ∈ before, ∃ x, f b = .ok x) ∧ f a = .error e

/-- Where something fails, not everything succeeds. -/
theorem FirstFails.not_forall (h : FirstFails f l e) : ¬∀ a ∈ l, ∃ x, f a = .ok x := by
  obtain ⟨before, a, after, rfl, -, ha⟩ := h
  intro hall
  obtain ⟨x, hx⟩ := hall a (List.mem_append_right _ List.mem_cons_self)
  rw [ha] at hx
  contradiction

/-- More behind it changes nothing. -/
theorem FirstFails.append (h : FirstFails f l e) (l' : List α) : FirstFails f (l ++ l') e := by
  obtain ⟨before, a, after, rfl, hbefore, ha⟩ := h
  exact ⟨before, a, after ++ l', by rw [List.append_assoc, List.cons_append], hbefore, ha⟩

/-- Nor does more in front that succeeds. -/
theorem FirstFails.prepend (hl : ∀ a ∈ l, ∃ x, f a = .ok x) (h : FirstFails f l' e) :
    FirstFails f (l ++ l') e := by
  obtain ⟨before, a, after, rfl, hbefore, ha⟩ := h
  refine ⟨l ++ before, a, after, (List.append_assoc _ _ _).symm, fun b hb => ?_, ha⟩
  exact (List.mem_append.1 hb).elim (hl b) (hbefore b)

/-- **There is one first failure.** -/
theorem FirstFails.unique (h : FirstFails f l e) (h' : FirstFails f l e') : e = e' := by
  induction l with
  | nil =>
    obtain ⟨before, a, after, hnil, -⟩ := h
    exact absurd hnil.symm (List.append_ne_nil_of_right_ne_nil _ (List.cons_ne_nil _ _))
  | cons a l ih =>
    -- what is first in a longer list is the head, or first behind a head that succeeds
    have hcons {e : ε} (h : FirstFails f (a :: l) e) :
        f a = .error e ∨ (∃ x, f a = .ok x) ∧ FirstFails f l e := by
      obtain ⟨_ | ⟨b, before⟩, a', after, hl, hbefore, ha⟩ := h
      · exact .inl ((List.cons.inj hl).1 ▸ ha)
      · obtain ⟨rfl, rfl⟩ := List.cons.inj hl
        exact .inr ⟨hbefore _ List.mem_cons_self, before, a', after, rfl,
          fun b hb => hbefore b (List.mem_cons_of_mem _ hb), ha⟩
    obtain ha | ⟨⟨x, hx⟩, hl⟩ := hcons h <;> obtain ha' | ⟨⟨x', hx'⟩, hl'⟩ := hcons h'
    · exact Except.error.inj (ha.symm.trans ha')
    · exact absurd (ha.symm.trans hx') nofun
    · exact absurd (ha'.symm.trans hx) nofun
    · exact ih hl hl'

/-- **A computation fails as a list does**: it succeeds only if all members do, and fails as the first
that fails. -/
structure FailsAs (f : α → Except ε β) (l : List α) (x : Except ε γ) : Prop where
  /-- It succeeds only if all do. -/
  all : ∀ c, x = .ok c → ∀ a ∈ l, ∃ b, f a = .ok b
  /-- It fails as the first that fails. -/
  first : ∀ e, x = .error e → FirstFails f l e

namespace FailsAs

theorem nil (c : γ) : FailsAs f [] (.ok c : Except ε γ) :=
  ⟨fun _ _ => List.forall_mem_nil _, nofun⟩

theorem singleton (f : α → Except ε β) (a : α) : FailsAs f [a] (f a) :=
  ⟨fun c h => List.forall_mem_singleton.2 ⟨c, h⟩,
    fun _ h => ⟨[], a, [], rfl, List.forall_mem_nil _, h⟩⟩

/-- What goes on with other members fails as all of them do. -/
theorem bind {g : γ → Except ε δ} (hx : FailsAs f l x) (hg : ∀ c, FailsAs f l' (g c)) :
    FailsAs f (l ++ l') (x >>= g) := by
  cases x with
  | error e => exact ⟨nofun, fun e' h => Except.error.inj h ▸ (hx.first e rfl).append l'⟩
  | ok c =>
    have hl := hx.all c rfl
    exact ⟨fun d hd a ha => (List.mem_append.1 ha).elim (hl a) ((hg c).all d hd a),
      fun e he => ((hg c).first e he).prepend hl⟩

/-- What is done with the value does not matter. -/
theorem map (hx : FailsAs f l x) (g : γ → δ) : FailsAs f l (x.map g) := by
  cases x with
  | error e => exact ⟨nofun, fun e' h => Except.error.inj h ▸ hx.first e rfl⟩
  | ok c => exact ⟨fun _ _ => hx.all c rfl, nofun⟩

theorem eq_error_iff (hx : FailsAs f l x) : x = .error e ↔ FirstFails f l e := by
  refine ⟨hx.first e, fun h => ?_⟩
  cases hc : x with
  | ok c => exact absurd (hx.all c hc) h.not_forall
  | error e' => rw [(hx.first e' hc).unique h]

end FailsAs

end First

namespace Context

variable {c : Context} {ps : List Piece} {text s : String}

/-! ## Pieces of a text -/

/-- **What stands in the place of a piece**: characters outside the markers stay, a reference gives way
to its value, which is a text as it is or else JSON. -/
def rendered (c : Context) : Piece → Except Failure String
  | .literal cs => .ok (String.ofList cs)
  | .reference cs =>
    match parse (String.ofList cs) with
    | .error e => .error (.unreadable e)
    | .ok e =>
      match e.evaluate c with
      | .error f => .error (.unresolved f)
      | .ok (.str s) => .ok s
      | .ok v => .ok v.compact
  | .unterminated cs => .error (.unreadable ⟨String.ofList cs, .unterminated⟩)

/-- Filling in the pieces renders them one after the other. -/
theorem fill_cons (c : Context) (p : Piece) (rest : List Piece) :
    c.fill (p :: rest) = c.rendered p >>= fun s => (c.fill rest).map (s ++ ·) := by
  have hmap (s : String) : (do let after ← c.fill rest; return s ++ after) =
      (c.fill rest).map (s ++ ·) := by
    cases c.fill rest <;> rfl
  cases p with
  | literal cs => exact hmap _
  | unterminated cs => rfl
  | reference cs =>
    rw [fill, rendered]
    cases parse (String.ofList cs) with
    | error e => rfl
    | ok e =>
      show ((e.evaluate c).mapError .unresolved >>= fun v => do
        let after ← c.fill rest; return v.inText ++ after) = _
      dsimp only
      cases e.evaluate c with
      | error f => rfl
      | ok v => cases v <;> exact hmap _

theorem fill_failsAs (c : Context) (ps : List Piece) : FailsAs c.rendered ps (c.fill ps) := by
  induction ps with
  | nil => exact .nil ""
  | cons p rest ih =>
    rw [fill_cons]
    exact (FailsAs.singleton c.rendered p).bind fun s => ih.map _

/-- **A text is filled in** with what stands in the places of its pieces. -/
theorem fill_eq_ok_iff : c.fill ps = .ok s ↔
    ∃ ss, List.Forall₂ (fun p s => c.rendered p = .ok s) ps ss ∧ s = String.join ss := by
  induction ps generalizing s with
  | nil =>
    constructor
    · intro h
      exact ⟨[], .nil, (Except.ok.inj h).symm⟩
    · rintro ⟨ss, hss, rfl⟩
      obtain rfl := List.forall₂_nil_left_iff.1 hss
      rfl
  | cons p rest ih =>
    rw [fill_cons, bind_eq_ok]
    constructor
    · rintro ⟨first, hfirst, h⟩
      obtain ⟨after, hafter, rfl⟩ := map_eq_ok.1 h
      obtain ⟨ss, hss, rfl⟩ := ih.1 hafter
      exact ⟨first :: ss, .cons hfirst hss, by rw [String.join_cons]⟩
    · rintro ⟨ss, hss, rfl⟩
      obtain ⟨first, others, hfirst, hothers, rfl⟩ := List.forall₂_cons_left_iff.1 hss
      exact ⟨first, hfirst, map_eq_ok.2 ⟨_, ih.2 ⟨others, hothers, rfl⟩, by rw [String.join_cons]⟩⟩

/-- A text that is not one reference is cut up and filled in. -/
theorem substitute_of_not_whole (h : ¬IsWhole text) (hps : CutInto text.toList ps) :
    c.substitute text = (c.fill ps).map .str := by
  rw [substitute, cut_eq_iff.2 hps]
  exact if_neg fun hs => h (isSingle_iff.1 hs)

/-! ## Texts in a value -/

mutual

/-- **What a value becomes**: texts with an opening marker are substituted in; names, shape and
everything else stay as they are. -/
inductive Resolved (c : Context) : Value → Value → Prop
  | filled {s : String} {v : Value} : opening <:+: s.toList → c.substitute s = .ok v →
      Resolved c (.str s) v
  | plain {s : String} : ¬opening <:+: s.toList → Resolved c (.str s) (.str s)
  | null : Resolved c .null .null
  | bool (b : Bool) : Resolved c (.bool b) (.bool b)
  | int (n : Int) : Resolved c (.int n) (.int n)
  | float (x : Float) : Resolved c (.float x) (.float x)
  | arr {items items' : List Value} : ResolvedItems c items items' →
      Resolved c (.arr items) (.arr items')
  | obj {fields fields' : List (String × Value)} : ResolvedFields c fields fields' →
      Resolved c (.obj fields) (.obj fields')

/-- What the members of a list become, each in its place. -/
inductive ResolvedItems (c : Context) : List Value → List Value → Prop
  | nil : ResolvedItems c [] []
  | cons {v w : Value} {rest rest' : List Value} : Resolved c v w → ResolvedItems c rest rest' →
      ResolvedItems c (v :: rest) (w :: rest')

/-- What named values become, each under its name. -/
inductive ResolvedFields (c : Context) : List (String × Value) → List (String × Value) → Prop
  | nil : ResolvedFields c [] []
  | cons {k : String} {v w : Value} {rest rest' : List (String × Value)} : Resolved c v w →
      ResolvedFields c rest rest' → ResolvedFields c ((k, v) :: rest) ((k, w) :: rest')

end

/-- What a text alone becomes. -/
def textValue (c : Context) (s : String) : Except Failure Value :=
  if occursIn s then c.substitute s else .ok (.str s)

theorem textValue_eq_ok_iff {w : Value} : c.textValue s = .ok w ↔ c.Resolved (.str s) w := by
  rw [textValue]
  by_cases h : occursIn s = true
  · have hmarker := Text.hasMarker_iff.1 h
    rw [if_pos h]
    constructor
    · exact .filled hmarker
    · intro hw
      cases hw with
      | filled _ hw => exact hw
      | plain hnone => exact absurd hmarker hnone
  · have hnone : ¬opening <:+: s.toList := fun hm => h (Text.hasMarker_iff.2 hm)
    rw [if_neg h]
    constructor
    · intro hw
      rw [← Except.ok.inj hw]
      exact .plain hnone
    · intro hw
      cases hw with
      | filled hmarker _ => exact absurd hmarker hnone
      | plain _ => rfl

theorem resolveItems_cons (c : Context) (v : Value) (rest : List Value) :
    c.resolveItems (v :: rest) = c.resolve v >>= fun w => (c.resolveItems rest).map (w :: ·) := by
  rw [resolveItems]
  cases c.resolve v with
  | error f => rfl
  | ok w => cases c.resolveItems rest <;> rfl

theorem resolveFields_cons (c : Context) (k : String) (v : Value) (rest : List (String × Value)) :
    c.resolveFields ((k, v) :: rest) =
      c.resolve v >>= fun w => (c.resolveFields rest).map ((k, w) :: ·) := by
  rw [resolveFields]
  cases c.resolve v with
  | error f => rfl
  | ok w => cases c.resolveFields rest <;> rfl

mutual

/-- **A value is resolved** in its texts alone. -/
theorem resolve_eq_ok_iff : (v : Value) → {w : Value} → (c.resolve v = .ok w ↔ c.Resolved v w)
  | .str s, w => by rw [resolve, ← textValue, textValue_eq_ok_iff]
  | .null, w => by
    rw [resolve]
    exact ⟨fun h => Except.ok.inj h ▸ .null, fun h => by cases h; rfl⟩
  | .bool b, w => by
    rw [resolve]
    exact ⟨fun h => Except.ok.inj h ▸ .bool b, fun h => by cases h; rfl⟩
  | .int n, w => by
    rw [resolve]
    exact ⟨fun h => Except.ok.inj h ▸ .int n, fun h => by cases h; rfl⟩
  | .float x, w => by
    rw [resolve]
    exact ⟨fun h => Except.ok.inj h ▸ .float x, fun h => by cases h; rfl⟩
  | .arr items, w => by
    rw [resolve, map_eq_ok]
    constructor
    · rintro ⟨items', h, rfl⟩
      exact .arr ((resolveItems_eq_ok_iff items).1 h)
    · intro h
      cases h with
      | arr h => exact ⟨_, (resolveItems_eq_ok_iff items).2 h, rfl⟩
  | .obj fields, w => by
    rw [resolve, map_eq_ok]
    constructor
    · rintro ⟨fields', h, rfl⟩
      exact .obj ((resolveFields_eq_ok_iff fields).1 h)
    · intro h
      cases h with
      | obj h => exact ⟨_, (resolveFields_eq_ok_iff fields).2 h, rfl⟩

theorem resolveItems_eq_ok_iff : (items : List Value) → {items' : List Value} →
    (c.resolveItems items = .ok items' ↔ c.ResolvedItems items items')
  | [], items' => by
    rw [resolveItems]
    exact ⟨fun h => Except.ok.inj h ▸ .nil, fun h => by cases h; rfl⟩
  | v :: rest, items' => by
    rw [resolveItems_cons, bind_eq_ok]
    constructor
    · rintro ⟨w, hw, h⟩
      obtain ⟨rest', hrest, rfl⟩ := map_eq_ok.1 h
      exact .cons ((resolve_eq_ok_iff v).1 hw) ((resolveItems_eq_ok_iff rest).1 hrest)
    · intro h
      cases h with
      | cons hw hrest =>
        exact ⟨_, (resolve_eq_ok_iff v).2 hw,
          map_eq_ok.2 ⟨_, (resolveItems_eq_ok_iff rest).2 hrest, rfl⟩⟩

theorem resolveFields_eq_ok_iff : (fields : List (String × Value)) →
    {fields' : List (String × Value)} →
    (c.resolveFields fields = .ok fields' ↔ c.ResolvedFields fields fields')
  | [], fields' => by
    rw [resolveFields]
    exact ⟨fun h => Except.ok.inj h ▸ .nil, fun h => by cases h; rfl⟩
  | (k, v) :: rest, fields' => by
    rw [resolveFields_cons, bind_eq_ok]
    constructor
    · rintro ⟨w, hw, h⟩
      obtain ⟨rest', hrest, rfl⟩ := map_eq_ok.1 h
      exact .cons ((resolve_eq_ok_iff v).1 hw) ((resolveFields_eq_ok_iff rest).1 hrest)
    · intro h
      cases h with
      | cons hw hrest =>
        exact ⟨_, (resolve_eq_ok_iff v).2 hw,
          map_eq_ok.2 ⟨_, (resolveFields_eq_ok_iff rest).2 hrest, rfl⟩⟩

end

mutual

/-- **Resolving fails as the texts do**, in document order. -/
theorem resolve_failsAs (c : Context) : (loc : Location) → (v : Value) →
    FailsAs (fun t => c.textValue t.2) (texts loc v) (c.resolve v)
  | loc, .str s => .singleton (fun t => c.textValue t.2) (loc, s)
  | _, .null => .nil _
  | _, .bool _ => .nil _
  | _, .int _ => .nil _
  | _, .float _ => .nil _
  | loc, .arr items => by
    rw [texts, resolve]
    exact (resolveItems_failsAs c loc 0 items).map _
  | loc, .obj fields => by
    rw [texts, resolve]
    exact (resolveFields_failsAs c loc fields).map _

theorem resolveItems_failsAs (c : Context) : (loc : Location) → (place : Nat) → (items : List Value) →
    FailsAs (fun t => c.textValue t.2) (textsOfItems loc place items) (c.resolveItems items)
  | _, _, [] => .nil []
  | loc, place, v :: rest => by
    rw [textsOfItems, resolveItems_cons]
    exact (resolve_failsAs c (loc.index place) v).bind fun w =>
      (resolveItems_failsAs c loc (place + 1) rest).map _

theorem resolveFields_failsAs (c : Context) : (loc : Location) → (fields : List (String × Value)) →
    FailsAs (fun t => c.textValue t.2) (textsOfFields loc fields) (c.resolveFields fields)
  | _, [] => .nil []
  | loc, (k, v) :: rest => by
    rw [textsOfFields, resolveFields_cons]
    exact (resolve_failsAs c (loc.field k) v).bind fun w => (resolveFields_failsAs c loc rest).map _

end

/-- **Substitution keeps the text.** A text that is not one reference is cut into pieces that together
are the text. It becomes these pieces again, with the values in the places of the references, unless one
cannot be replaced; then it fails as the first of these does. A value becomes what its texts with a
marker become in their places, and fails as the first text that fails. -/
theorem substitutes_exactly (c : Context) :
    (∀ text, ¬IsWhole text → ∃ ps, CutInto text.toList ps ∧ ps.flatMap Piece.chars = text.toList ∧
      (∀ v, c.substitute text = .ok v ↔
        ∃ ss, List.Forall₂ (fun p s => c.rendered p = .ok s) ps ss ∧ v = .str (String.join ss)) ∧
      ∀ f, c.substitute text = .error f ↔ FirstFails c.rendered ps f) ∧
    ∀ v, (∀ w, c.resolve v = .ok w ↔ c.Resolved v w) ∧
      ∀ f, c.resolve v = .error f ↔ FirstFails (fun t => c.textValue t.2) (texts [] v) f := by
  refine ⟨fun text htext => ?_, fun v => ⟨fun w => resolve_eq_ok_iff v, fun f => ?_⟩⟩
  · have hps := cut_cutInto text.toList
    have hsubst := substitute_of_not_whole (c := c) htext hps
    refine ⟨cut text.toList, hps, hps.chars_eq, fun v => ?_, fun f => ?_⟩
    · rw [hsubst, map_eq_ok]
      constructor
      · rintro ⟨s, hs, rfl⟩
        obtain ⟨ss, hss, rfl⟩ := fill_eq_ok_iff.1 hs
        exact ⟨ss, hss, rfl⟩
      · rintro ⟨ss, hss, rfl⟩
        exact ⟨_, fill_eq_ok_iff.2 ⟨ss, hss, rfl⟩, rfl⟩
    · rw [hsubst]
      exact ((fill_failsAs c _).map Value.str).eq_error_iff
  · exact (resolve_failsAs c [] v).eq_error_iff

end Context

namespace Sample

/-- A context in which a value holds what looks like a reference to another one. -/
def tempting : Context :=
  (({} : Context).setInput "one" (.str "$\x7b\x7b inputs.two \x7d\x7d")).setInput "two" (.arr [.int 2])

/-- A text that refers to both. -/
def template : String := "a $\x7b\x7b inputs.one \x7d\x7d b $\x7b\x7b inputs.two \x7d\x7d"

theorem template_not_whole : ¬IsWhole template := fun h => absurd (isSingle_iff.2 h) (by decide)

theorem template_cut : CutInto template.toList
    [.literal "a ".toList, .reference (opening ++ " inputs.one ".toList ++ closing),
      .literal " b ".toList, .reference (opening ++ " inputs.two ".toList ++ closing), .literal []] := by
  have hfirst : Text.cutAt? opening template.toList =
      some ("a ".toList, " inputs.one \x7d\x7d b $\x7b\x7b inputs.two \x7d\x7d".toList) := by decide
  have hone : Text.cutAt? closing " inputs.one \x7d\x7d b $\x7b\x7b inputs.two \x7d\x7d".toList =
      some (" inputs.one ".toList, " b $\x7b\x7b inputs.two \x7d\x7d".toList) := by decide
  have hsecond : Text.cutAt? opening " b $\x7b\x7b inputs.two \x7d\x7d".toList =
      some (" b ".toList, " inputs.two \x7d\x7d".toList) := by decide
  have htwo : Text.cutAt? closing " inputs.two \x7d\x7d".toList = some (" inputs.two ".toList, []) := by
    decide
  exact .reference (Text.cutAt?_eq_some_iff.1 hfirst) (Text.cutAt?_eq_some_iff.1 hone)
    (.reference (Text.cutAt?_eq_some_iff.1 hsecond) (Text.cutAt?_eq_some_iff.1 htwo)
      (.last (Text.cutAt?_eq_none_iff.1 rfl)))

end Sample

namespace Context

/-- A value that looks like a reference is put in as it is. -/
theorem substitutes_exactly_template : ¬IsWhole Sample.template ∧
    Sample.tempting.substitute Sample.template = .ok (.str "a $\x7b\x7b inputs.two \x7d\x7d b [2]") := by
  refine ⟨Sample.template_not_whole, ?_⟩
  obtain ⟨ps, hps, -, hok, -⟩ :=
    (substitutes_exactly Sample.tempting).1 Sample.template Sample.template_not_whole
  obtain rfl := (cut_eq_iff.2 Sample.template_cut).symm.trans (cut_eq_iff.2 hps)
  have ha : Sample.tempting.rendered (.literal "a ".toList) = .ok "a " := rfl
  have hone : Sample.tempting.rendered (.reference (opening ++ " inputs.one ".toList ++ closing)) =
      .ok "$\x7b\x7b inputs.two \x7d\x7d" := rfl
  have hb : Sample.tempting.rendered (.literal " b ".toList) = .ok " b " := rfl
  have htwo : Sample.tempting.rendered (.reference (opening ++ " inputs.two ".toList ++ closing)) =
      .ok (Value.arr [.int 2]).compact := rfl
  have hcompact : (Value.arr [.int 2]).compact = "[2]" := by
    rw [Value.compact, Value.compactItems, Value.compact]
    decide
  have hend : Sample.tempting.rendered (.literal []) = .ok "" := by decide
  have hjoin : String.join ["a ", "$\x7b\x7b inputs.two \x7d\x7d", " b ", "[2]", ""] =
      "a $\x7b\x7b inputs.two \x7d\x7d b [2]" := by decide
  exact (hok _).2 ⟨["a ", "$\x7b\x7b inputs.two \x7d\x7d", " b ", "[2]", ""],
    .cons ha (.cons hone (.cons hb (.cons (htwo.trans (congrArg _ hcompact)) (.cons hend .nil)))),
    congrArg Value.str hjoin.symm⟩

end Context

end Stepflow
