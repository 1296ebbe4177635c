import Mathlib.Data.List.Basic
import Stepflow.Proofs.Expression.Resolution
import Stepflow.Validation.Definition

/-!
# The references that a check extracts and those that a run looks up

A check extracts the references of every text of a value (`valueIssues_eq`), and resolving the value
looks references up. They are the same references in the same order, up to the first that leads
nowhere, unless resolving comes to an overlong text. The main statement is that this exception is exact
(`resolve_follows_iff`).
-/

namespace Stepflow

open Expression Embedded

namespace Context

/-- A reference leads nowhere in a context. -/
def Misses (c : Context) (e : Expression) : Prop := ∃ f, e.evaluate c = .error f

/-- The references up to the first that leads nowhere, that one included. -/
def upToMiss (c : Context) : List Expression → List Expression
  | [] => []
  | e :: rest =>
    match e.evaluate c with
    | .ok _ => e :: upToMiss c rest
    | .error _ => [e]

variable {c : Context} {e : Expression} {es es' : List Expression}

theorem exists_evaluate (h : ¬c.Misses e) : ∃ v, e.evaluate c = .ok v := by
  cases he : e.evaluate c with
  | ok v => exact ⟨v, rfl⟩
  | error f => exact absurd ⟨f, he⟩ h

theorem upToMiss_append_of_found (h : ∀ e ∈ es, ¬c.Misses e) :
    c.upToMiss (es ++ es') = es ++ c.upToMiss es' := by
  induction es with
  | nil => rfl
  | cons e rest ih =>
    obtain ⟨v, hv⟩ := exists_evaluate (h e List.mem_cons_self)
    rw [List.cons_append, upToMiss, hv]
    exact congrArg (e :: ·) (ih fun e he => h e (List.mem_cons_of_mem _ he))

theorem upToMiss_of_found (h : ∀ e ∈ es, ¬c.Misses e) : c.upToMiss es = es := by
  have happ : c.upToMiss (es ++ []) = es ++ c.upToMiss [] := upToMiss_append_of_found h
  rwa [upToMiss, List.append_nil] at happ

theorem upToMiss_append_of_missed (h : ∃ e ∈ es, c.Misses e) :
    c.upToMiss (es ++ es') = c.upToMiss es := by
  induction es with
  | nil => obtain ⟨e, he, -⟩ := h; contradiction
  | cons e rest ih =>
    rw [List.cons_append, upToMiss, upToMiss]
    cases he : e.evaluate c with
    | error f => rfl
    | ok v =>
      obtain ⟨e', he', f, hf⟩ := h
      obtain rfl | he' := List.mem_cons.1 he'
      · rw [he] at hf
        contradiction
      · exact congrArg (e :: ·) (ih ⟨e', he', f, hf⟩)

end Context

/-- A computation looks the references up one after the other, and fails at the first that leads
nowhere and for no other reason. -/
structure Logged.Follows {α : Type} (c : Context) (es : List Expression) (x : Logged α) : Prop where
  /-- It has looked them up to the first that leads nowhere. -/
  log : x.log = c.upToMiss es
  /-- It succeeds if all of them lead somewhere. -/
  found : (∀ e ∈ es, ¬c.Misses e) → ∃ a, x.result = .ok a
  /-- It fails at the first of them that leads nowhere. -/
  missed : (∃ e ∈ es, c.Misses e) → ∃ f, x.result = .error (.unresolved f)

namespace Logged.Follows

variable {α β : Type} {c : Context} {es es' : List Expression} {x : Logged α} {f : α → Logged β}

theorem pure (a : α) : Follows c [] (Pure.pure a : Logged α) :=
  ⟨rfl, fun _ => ⟨a, rfl⟩, nofun⟩

theorem look (c : Context) (e : Expression) : Follows c [e] (c.lookLogged e) := by
  have hr : (c.lookLogged e).result = (e.evaluate c).mapError .unresolved := rfl
  constructor
  · rw [Context.upToMiss]
    cases e.evaluate c <;> rfl
  · intro h
    obtain ⟨v, hv⟩ := Context.exists_evaluate (h e (List.mem_singleton_self e))
    exact ⟨v, by rw [hr, hv]; rfl⟩
  · rintro ⟨e', he, f, hf⟩
    rw [List.mem_singleton.1 he] at hf
    exact ⟨f, by rw [hr, hf]; rfl⟩

/-- What follows some references and then goes on to follow others follows them all. -/
theorem bind (hx : Follows c es x) (hf : ∀ a, Follows c es' (f a)) : Follows c (es ++ es') (x >>= f) := by
  by_cases h : ∃ e ∈ es, c.Misses e
  · obtain ⟨failure, hr⟩ := hx.missed h
    rw [Logged.bind_of_error hr]
    refine ⟨hx.log.trans (Context.upToMiss_append_of_missed h).symm, fun hall => ?_, fun _ => ⟨_, rfl⟩⟩
    obtain ⟨e, he, hm⟩ := h
    exact absurd hm (hall e (List.mem_append_left _ he))
  · have h : ∀ e ∈ es, ¬c.Misses e := fun e he hm => h ⟨e, he, hm⟩
    obtain ⟨a, hr⟩ := hx.found h
    rw [Logged.bind_of_ok hr]
    have hlog : x.log = es := hx.log.trans (Context.upToMiss_of_found h)
    constructor
    · rw [Context.upToMiss_append_of_found h, ← (hf a).log, hlog]
    · exact fun hall => (hf a).found fun e he => hall e (List.mem_append_right _ he)
    · rintro ⟨e, he, hm⟩
      exact (hf a).missed ⟨e, (List.mem_append.1 he).resolve_left fun he => h e he hm, hm⟩

/-- Nothing is looked up after the last reference. -/
theorem map (hx : Follows c es x) (g : α → β) : Follows c es (x >>= fun a => Pure.pure (g a)) := by
  have happ : Follows c (es ++ []) (x >>= fun a => Pure.pure (g a)) := hx.bind fun a => pure (g a)
  rwa [List.append_nil] at happ

end Logged.Follows

/-! ## The texts of a value -/

namespace Validation

mutual

/-- The texts in a value with their locations, in document order. -/
def texts (loc : Location) : Value → List (Location × String)
  | .str s => [(loc, s)]
  | .arr items => textsOfItems loc 0 items
  | .obj fields => textsOfFields loc fields
  | .null | .bool _ | .int _ | .float _ => []

/-- The texts in the members of a list, the first of which stands at a place. -/
def textsOfItems (loc : Location) (place : Nat) : List Value → List (Location × String)
  | [] => []
  | v :: rest => texts (loc.index place) v ++ textsOfItems loc (place + 1) rest

/-- The texts in named values. -/
def textsOfFields (loc : Location) : List (String × Value) → List (Location × String)
  | [] => []
  | (k, v) :: rest => texts (loc.field k) v ++ textsOfFields loc rest

end

/-- The references that are extracted from a text, none if one of them cannot be read. -/
def referencesIn (text : String) : List Expression :=
  match extract text with
  | .ok es => es
  | .error _ => []

/-- The references that are extracted from texts, each with the location of its text. -/
def extracted (ts : List (Location × String)) : List (Location × Expression) :=
  ts.flatMap fun t => (referencesIn t.2).map (t.1, ·)

variable {scope : Scope} {loc : Location} {v : Value} {s : String}

theorem extract_of_unmarked (h : occursIn s = false) : extract s = .ok [] := by
  rw [extract, cut_of_none (Option.not_isSome_iff_eq_none.1 (ne_true_of_eq_false h))]
  rfl

/-- What is said of a text is said of the references in it, or of what cannot be read in it. -/
theorem textIssues_eq : textIssues scope loc s =
    match extract s with
    | .ok es => es.flatMap (referenceIssues scope loc)
    | .error e => [⟨loc, .badReference e⟩] := by
  rw [textIssues]
  split
  · rfl
  · rename_i h
    rw [extract_of_unmarked (eq_false_of_ne_true h)]
    rfl

mutual

/-- What is said of a value is said of its texts. -/
theorem valueIssues_eq_texts (loc : Location) :
    ∀ v, valueIssues scope loc v = (texts loc v).flatMap fun t => textIssues scope t.1 t.2
  | .str s => by rw [valueIssues, texts, List.flatMap_singleton]
  | .arr items => by rw [valueIssues, texts, itemIssues_eq_texts]
  | .obj fields => by rw [valueIssues, texts, fieldIssues_eq_texts]
  | .null | .bool _ | .int _ | .float _ => by rw [valueIssues, texts, List.flatMap_nil]

theorem itemIssues_eq_texts (loc : Location) (place : Nat) : ∀ items, itemIssues scope loc place items =
    (textsOfItems loc place items).flatMap fun t => textIssues scope t.1 t.2
  | [] => by rw [itemIssues, textsOfItems, List.flatMap_nil]
  | v :: rest => by
    rw [itemIssues, textsOfItems, List.flatMap_append, valueIssues_eq_texts _ v,
      itemIssues_eq_texts loc (place + 1) rest]

theorem fieldIssues_eq_texts (loc : Location) : ∀ fields, fieldIssues scope loc fields =
    (textsOfFields loc fields).flatMap fun t => textIssues scope t.1 t.2
  | [] => by rw [fieldIssues, textsOfFields, List.flatMap_nil]
  | (k, v) :: rest => by
    rw [fieldIssues, textsOfFields, List.flatMap_append, valueIssues_eq_texts _ v,
      fieldIssues_eq_texts loc rest]

end

/-- No text of a value is reported as unreadable. -/
def Readable (scope : Scope) (loc : Location) (v : Value) : Prop :=
  ∀ i ∈ valueIssues scope loc v, ∀ e, i.problem ≠ .badReference e

/-- The references of every text of a readable value can be extracted. -/
theorem Readable.extract (h : Readable scope loc v) {t : Location × String} (ht : t ∈ texts loc v) :
    extract t.2 = .ok (referencesIn t.2) := by
  rw [referencesIn]
  cases he : Embedded.extract t.2 with
  | ok es => rfl
  | error e =>
    refine absurd rfl (h ⟨t.1, .badReference e⟩ ?_ e)
    rw [valueIssues_eq_texts]
    refine List.mem_flatMap.2 ⟨t, ht, ?_⟩
    rw [textIssues_eq, he]
    exact List.mem_singleton_self _

/-- **What is checked of a readable value** are the references that are extracted from its texts. -/
theorem Readable.valueIssues_eq (h : Readable scope loc v) : valueIssues scope loc v =
    (extracted (texts loc v)).flatMap fun u => referenceIssues scope u.1 u.2 := by
  rw [valueIssues_eq_texts, extracted, List.flatMap_assoc]
  refine List.flatMap_congr fun t ht => ?_
  rw [textIssues_eq, h.extract ht, List.flatMap_map]

end Validation

/-! ## Reading the texts of a value -/

namespace Context

open Validation

variable {c : Context} {es : List Expression} {s : String}

/-- Filling in the references of a text follows them. -/
theorem fillWith_follows {ps : List Piece} (h : references ps = .ok es) :
    (fillWith c.lookLogged ps).Follows c es := by
  induction ps generalizing es with
  | nil =>
    rw [← Except.ok.inj h]
    exact .pure ""
  | cons p rest ih =>
    cases p with
    | literal cs => exact (ih h).map _
    | reference cs =>
      obtain ⟨e, he, h⟩ := bind_eq_ok.1 h
      obtain ⟨es', hr, hes⟩ := bind_eq_ok.1 h
      rw [← Except.ok.inj hes, fillWith, readReference, he]
      exact (Logged.Follows.look c e).bind fun v => (ih hr).map _
    | unterminated cs => contradiction

/-- **A text that is not overlong**: resolving it follows the references that are extracted from it. -/
theorem resolveLogged_text_follows (h : extract s = .ok es) (ho : isOverlong s = false) :
    (c.resolveLogged (.str s)).Follows c es := by
  rw [resolveLogged, resolveWith]
  split
  · dsimp only [substituteWith]
    split
    · rename_i hs
      obtain ⟨before, after, hcut⟩ := cut_of_single hs ho
      rw [extract, hcut] at h
      obtain ⟨e, he, h⟩ := bind_eq_ok.1 h
      rw [← Except.ok.inj h, readReference, he]
      exact .look c e
    · exact (fillWith_follows h).map _
  · rename_i hm
    rw [extract_of_unmarked (eq_false_of_ne_true hm)] at h
    rw [← Except.ok.inj h]
    exact .pure _

/-- **An overlong text** is not resolved: nothing is looked up in it, and it cannot be read. -/
theorem resolveLogged_overlong (h : isOverlong s = true) :
    ∃ e, c.resolveLogged (.str s) = ⟨[], .error (.unreadable e)⟩ := by
  obtain ⟨e, he⟩ := parse_of_overlong h
  have hs := (Bool.and_eq_true_iff.1 h).1
  have hm : occursIn s = true := by
    obtain ⟨before, after, htext, -⟩ := Text.trim_between s.toList
    obtain ⟨inner, hi⟩ := enclosed_of_isSingle hs
    obtain ⟨p, hp⟩ := Text.exists_cutAt? '$' ['{', '{'] before (inner ++ closing ++ after)
    rw [occursIn, Text.hasMarker, htext, hi]
    simp only [List.append_assoc] at hp ⊢
    exact Option.isSome_iff_exists.2 ⟨p, hp⟩
  refine ⟨e, ?_⟩
  rw [resolveLogged, resolveWith, if_pos hm]
  dsimp only [substituteWith]
  rw [if_pos hs, readReference, he]
  rfl

/-- Resolves texts one after the other, for what they look up. -/
def resolveTexts (c : Context) : List (Location × String) → Logged Unit
  | [] => pure ()
  | t :: rest => do
    let _ ← c.resolveLogged (.str t.2)
    resolveTexts c rest

theorem resolveTexts_append (ts us : List (Location × String)) :
    c.resolveTexts (ts ++ us) = c.resolveTexts ts >>= fun _ => c.resolveTexts us := by
  induction ts with
  | nil => rfl
  | cons t rest ih =>
    rw [List.cons_append, resolveTexts, resolveTexts, ih, bind_assoc]

mutual

/-- **Resolving a value** is resolving its texts in document order. -/
theorem resolveLogged_eq_texts (c : Context) (loc : Location) : ∀ v,
    (c.resolveLogged v >>= fun _ => pure ()) = c.resolveTexts (texts loc v)
  | .str s => by
    rw [texts, resolveTexts, resolveTexts]
  | .arr items => by
    rw [texts, ← resolveItems_eq_texts c loc 0 items, resolveLogged, resolveWith, bind_assoc]
    rfl
  | .obj fields => by
    rw [texts, ← resolveFields_eq_texts c loc fields, resolveLogged, resolveWith, bind_assoc]
    rfl
  | .null | .bool _ | .int _ | .float _ => by rw [texts, resolveLogged, resolveWith]; rfl

theorem resolveItems_eq_texts (c : Context) (loc : Location) (place : Nat) : ∀ items,
    (resolveItemsWith c.lookLogged items >>= fun _ => pure ()) =
      c.resolveTexts (textsOfItems loc place items)
  | [] => by rw [textsOfItems, resolveItemsWith]; rfl
  | v :: rest => by
    rw [textsOfItems, resolveItemsWith, resolveTexts_append, ← resolveLogged_eq_texts c _ v,
      ← resolveItems_eq_texts c loc (place + 1) rest]
    simp only [bind_assoc, pure_bind]
    rfl

theorem resolveFields_eq_texts (c : Context) (loc : Location) : ∀ fields,
    (resolveFieldsWith c.lookLogged fields >>= fun _ => pure ()) = c.resolveTexts (textsOfFields loc fields)
  | [] => by rw [textsOfFields, resolveFieldsWith]; rfl
  | (k, v) :: rest => by
    rw [textsOfFields, resolveFieldsWith, resolveTexts_append, ← resolveLogged_eq_texts c _ v,
      ← resolveFields_eq_texts c loc rest]
    simp only [bind_assoc, pure_bind]
    rfl

end

/-- Before every overlong text stands one with a reference that leads nowhere. -/
def Shielded (c : Context) (ts : List (Location × String)) : Prop :=
  ∀ before t after, ts = before ++ t :: after → isOverlong t.2 = true →
    ∃ u ∈ extracted before, c.Misses u.2

/-- Whatever a computation comes to, it is not a text that cannot be read, and it has looked the
references up to the first that leads nowhere. -/
structure Covers {α : Type} (c : Context) (es : List Expression) (x : Logged α) : Prop where
  readable : ∀ e, x.result ≠ .error (.unreadable e)
  log : x.log = c.upToMiss es

variable {t : Location × String} {ts : List (Location × String)}

theorem extracted_cons : extracted (t :: ts) = (referencesIn t.2).map (t.1, ·) ++ extracted ts :=
  List.flatMap_cons

theorem map_snd_extracted_cons : (extracted (t :: ts)).map Prod.snd =
    referencesIn t.2 ++ (extracted ts).map Prod.snd := by
  rw [extracted_cons, List.map_append, List.map_map]
  exact congrArg (· ++ _) (List.map_id _)

/-- An overlong text is not shielded by what comes after it. -/
theorem not_shielded_cons (h : isOverlong t.2 = true) : ¬c.Shielded (t :: ts) := fun hs => by
  obtain ⟨u, hu, -⟩ := hs [] t ts rfl h
  contradiction

/-- A text with a reference that leads nowhere shields all that comes after it. -/
theorem shielded_cons_of_missed (h : isOverlong t.2 = false) (hm : ∃ e ∈ referencesIn t.2, c.Misses e) :
    c.Shielded (t :: ts) := by
  rintro before u after hts hu
  obtain ⟨e, he, hm⟩ := hm
  cases before with
  | nil =>
    rw [(List.cons.inj hts).1, hu] at h
    contradiction
  | cons t' before =>
    obtain ⟨rfl, -⟩ := List.cons.inj hts
    refine ⟨(t.1, e), ?_, hm⟩
    rw [extracted_cons]
    exact List.mem_append_left _ (List.mem_map_of_mem he)

/-- A text whose references all lead somewhere shields nothing. -/
theorem shielded_cons_of_found (h : isOverlong t.2 = false)
    (hf : ∀ e ∈ referencesIn t.2, ¬c.Misses e) : c.Shielded (t :: ts) ↔ c.Shielded ts := by
  constructor
  · intro hs before u after hts hu
    obtain ⟨w, hw, hm⟩ := hs (t :: before) u after (congrArg (t :: ·) hts) hu
    refine ⟨w, ?_, hm⟩
    rw [extracted_cons] at hw
    refine (List.mem_append.1 hw).resolve_left fun hw => ?_
    obtain ⟨e, he, rfl⟩ := List.mem_map.1 hw
    exact hf e he hm
  · rintro hs before u after hts hu
    cases before with
    | nil =>
      rw [(List.cons.inj hts).1, hu] at h
      contradiction
    | cons t' before =>
      obtain ⟨w, hw, hm⟩ := hs before u after (List.cons.inj hts).2 hu
      rw [extracted_cons]
      exact ⟨w, List.mem_append_right _ hw, hm⟩

/-- **Texts one after the other** are covered by their references exactly if every overlong one is
shielded. -/
theorem resolveTexts_covers_iff (h : ∀ t ∈ ts, extract t.2 = .ok (referencesIn t.2)) :
    c.Covers ((extracted ts).map Prod.snd) (c.resolveTexts ts) ↔ c.Shielded ts := by
  induction ts with
  | nil =>
    refine ⟨fun _ before t after hts => ?_, fun _ => ⟨nofun, rfl⟩⟩
    rw [List.nil_eq_append_iff] at hts
    exact absurd hts.2 nofun
  | cons t rest ih =>
    have ih := ih fun u hu => h u (List.mem_cons_of_mem t hu)
    have ht := h t List.mem_cons_self
    rw [resolveTexts, map_snd_extracted_cons]
    cases ho : isOverlong t.2 with
    | true =>
      obtain ⟨e, he⟩ := c.resolveLogged_overlong ho
      refine ⟨fun hc => absurd ?_ (hc.readable e), fun hs => absurd hs (not_shielded_cons ho)⟩
      rw [he]
      rfl
    | false =>
      have hfollows := resolveLogged_text_follows (c := c) ht ho
      by_cases hm : ∃ e ∈ referencesIn t.2, c.Misses e
      · refine ⟨fun _ => shielded_cons_of_missed ho hm, fun _ => ?_⟩
        obtain ⟨f, hf⟩ := hfollows.missed hm
        rw [Logged.bind_of_error hf]
        exact ⟨nofun, hfollows.log.trans (upToMiss_append_of_missed hm).symm⟩
      · have hm : ∀ e ∈ referencesIn t.2, ¬c.Misses e := fun e he hm' => hm ⟨e, he, hm'⟩
        obtain ⟨v, hv⟩ := hfollows.found hm
        have hlog : (c.resolveLogged (.str t.2)).log = referencesIn t.2 :=
          hfollows.log.trans (upToMiss_of_found hm)
        rw [shielded_cons_of_found ho hm, ← ih, Logged.bind_of_ok hv, hlog]
        constructor
        · rintro ⟨hr, hl⟩
          rw [upToMiss_append_of_found hm] at hl
          exact ⟨hr, List.append_cancel_left hl⟩
        · rintro ⟨hr, hl⟩
          refine ⟨hr, ?_⟩
          rw [upToMiss_append_of_found hm]
          exact congrArg _ hl

/-- What a computation comes to, apart from its failures, does not matter. -/
theorem covers_forget_iff {α : Type} {x : Logged α} :
    c.Covers es (x >>= fun _ => (pure () : Logged Unit)) ↔ c.Covers es x := by
  cases hr : x.result with
  | error f =>
    rw [Logged.bind_of_error hr]
    have hf {β γ : Type} (h : ∀ e, (Except.error f : Except Failure β) ≠ .error (.unreadable e)) (e) :
        (Except.error f : Except Failure γ) ≠ .error (.unreadable e) := fun he =>
      h e (congrArg Except.error (Except.error.inj he))
    exact ⟨fun ⟨h, hl⟩ => ⟨hr ▸ hf h, hl⟩, fun ⟨h, hl⟩ => ⟨hf (hr ▸ h), hl⟩⟩
  | ok a =>
    rw [Logged.bind_of_ok hr]
    have hl : x.log ++ (pure () : Logged Unit).log = x.log := List.append_nil x.log
    exact ⟨fun h => ⟨hr ▸ nofun, hl ▸ h.log⟩, fun h => ⟨nofun, hl.trans h.log⟩⟩

/-- **The references that a check extracts** from a readable value are those whose availability it checks.
Resolving the value never comes to a text that cannot be read, and looks these references up in order to
the first that leads nowhere, exactly if every overlong text is shielded. -/
theorem resolve_covered_iff {scope : Scope} {loc : Location} {v : Value} (h : Readable scope loc v)
    (c : Context) :
    valueIssues scope loc v =
        (extracted (texts loc v)).flatMap (fun u => referenceIssues scope u.1 u.2) ∧
      ((∀ e, c.resolve v ≠ .error (.unreadable e)) ∧
          c.lookedUp v = c.upToMiss ((extracted (texts loc v)).map Prod.snd) ↔
        c.Shielded (texts loc v)) := by
  refine ⟨h.valueIssues_eq, ?_⟩
  rw [← resolveTexts_covers_iff fun t ht => h.extract ht, ← resolveLogged_eq_texts c loc v,
    covers_forget_iff, ← result_resolveLogged]
  exact ⟨fun ⟨hr, hl⟩ => ⟨hr, hl⟩, fun hc => ⟨hc.readable, hc.log⟩⟩

/-! ### An overlong text -/

namespace Sample

/-- A text in which one reference is found. It is taken for a single reference, which it is not. -/
def overlong : String := "$\x7b\x7b config.mode \x7d\x7d and \x7d\x7d"

/-- The reference that is found in it. -/
def mode : Expression := ⟨"$\x7b\x7b config.mode \x7d\x7d", .config, [.field "mode"], false⟩

/-- The reference by itself, and then the overlong text. -/
def value : Value := .arr [.str mode.raw, .str overlong]

/-- A scope in which nothing is declared and no step is done. -/
def scope : Scope := ⟨Workflow.empty "flow", []⟩

/-- A context in which the reference leads to a text. -/
def context : Context := ({} : Context).setConfig "mode" (.str "fast")

theorem extract_mode : extract mode.raw = .ok [mode] := by decide +kernel

theorem extract_overlong : extract overlong = .ok [mode] := by decide +kernel

theorem value_issues : valueIssues scope [] value = [] := by
  rw [valueIssues_eq_texts]
  change textIssues scope _ mode.raw ++ (textIssues scope _ overlong ++ []) = []
  rw [textIssues_eq, textIssues_eq, extract_mode, extract_overlong]
  rfl

theorem value_readable : Readable scope [] value := fun i hi => by
  rw [value_issues] at hi
  contradiction

theorem referencesIn_mode : referencesIn mode.raw = [mode] := by
  rw [referencesIn, extract_mode]

/-- Where the reference leads somewhere, nothing stands before the overlong text. -/
theorem not_shielded : ¬context.Shielded (texts [] value) := by
  have hfound : ∀ e ∈ referencesIn mode.raw, ¬context.Misses e := by
    rw [referencesIn_mode, List.forall_mem_singleton]
    exact fun ⟨f, hf⟩ => nomatch hf
  change ¬context.Shielded [(_, mode.raw), (_, overlong)]
  rw [shielded_cons_of_found (by decide) hfound]
  exact not_shielded_cons (by decide)

/-- Where the reference leads nowhere, resolving stops before the overlong text. -/
theorem shielded : ({} : Context).Shielded (texts [] value) := by
  refine shielded_cons_of_missed (t := (_, mode.raw)) (by decide) ⟨mode, ?_, _, rfl⟩
  rw [referencesIn_mode]
  exact List.mem_singleton_self mode

end Sample

/-- The two texts are covered where the reference leads nowhere, and only there. -/
theorem resolve_covered_iff_sample : Readable Sample.scope [] Sample.value ∧
    ¬((∀ e, Sample.context.resolve Sample.value ≠ .error (.unreadable e)) ∧
      Sample.context.lookedUp Sample.value =
        Sample.context.upToMiss ((extracted (texts [] Sample.value)).map Prod.snd)) ∧
    ({} : Context).lookedUp Sample.value =
      ({} : Context).upToMiss ((extracted (texts [] Sample.value)).map Prod.snd) :=
  ⟨Sample.value_readable,
    fun h => Sample.not_shielded ((resolve_covered_iff Sample.value_readable Sample.context).2.1 h),
    ((resolve_covered_iff Sample.value_readable {}).2.2 Sample.shielded).2⟩

/-- **A check does not cover resolution**: it has nothing to say of a value that cannot be resolved, because
a text in it is taken for a reference that it is not. -/
theorem not_check_covers_resolution : valueIssues Sample.scope [] Sample.value = [] ∧
    Sample.context.resolve Sample.value =
      .error (.unreadable ⟨Sample.overlong, .invalidSegment "mode \x7d\x7d and"⟩) :=
  ⟨Sample.value_issues, by rfl⟩

end Context

end Stepflow
