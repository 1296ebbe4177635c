import Stepflow.Expression.Evaluation
import Stepflow.Proofs.Expression.Grammar

/-!
# Looking up is following a path

A reference is looked up in one of three tables, and the walk from there starts behind the name, or, for
a step, behind the word `output`. Seen in the snapshot of the context (`Context.toValue`) this is one
path from the top, the word of the root in front (`Expression.wholePath`). The main statement is that
both views agree: in what they find, and in where they get lost (`evaluate_follows_snapshot`). There is
one exception, an input that is not given: it counts as null, whatever follows its name.
-/

namespace Stepflow

open Expression

/-- What is found among changed entries is changed. -/
theorem Table.get?_mapValues {β γ : Type} (t : Table β) (f : β → γ) (name : String) :
    (t.mapValues f).get? name = (t.get? name).map f := by
  induction t with
  | nil => rfl
  | cons e rest ih =>
    obtain ⟨k, v⟩ := e
    rw [mapValues, List.map_cons, get?, get?]
    split
    · rfl
    · exact ih

/-! ## Where a path gets lost -/

namespace Value

variable {v w : Value} {path done done' : List Segment} {s s' : Segment}

/-- **A path leaves a value at a segment**: what is before the segment leads somewhere, and from there
the segment leads nowhere. -/
structure Leaves (v : Value) (path done : List Segment) (s : Segment) : Prop where
  /-- The segment is on the path. -/
  split : ∃ rest, path = done ++ s :: rest
  /-- It is the first that is not found. -/
  lost : ∃ w, v.follow? done = some w ∧ s.enter? w = none

theorem not_leaves_nil : ¬v.Leaves [] done s := by
  rintro ⟨⟨rest, hpath⟩, -⟩
  exact List.append_ne_nil_of_right_ne_nil done (List.cons_ne_nil s rest) hpath.symm

/-- Behind a segment that is found a path is left where it is left from there. -/
theorem leaves_cons_of_some (hs : s.enter? v = some w) :
    v.Leaves (s :: path) done s' ↔ ∃ before, done = s :: before ∧ w.Leaves path before s' := by
  have hfollow (before : List Segment) : v.follow? (s :: before) = w.follow? before := by
    rw [follow?, hs]
    rfl
  constructor
  · rintro ⟨⟨rest, hpath⟩, u, hu, hlost⟩
    cases done with
    | nil =>
      rw [← (List.cons.inj hpath).1, ← Option.some.inj hu, hs] at hlost
      contradiction
    | cons t before =>
      obtain ⟨rfl, htail⟩ := List.cons.inj hpath
      exact ⟨before, rfl, ⟨rest, htail⟩, u, hfollow before ▸ hu, hlost⟩
  · rintro ⟨before, rfl, ⟨rest, rfl⟩, u, hu, hlost⟩
    exact ⟨⟨rest, rfl⟩, u, (hfollow before).trans hu, hlost⟩

/-- At a segment that is not found it is left there. -/
theorem leaves_cons_of_none (hs : s.enter? v = none) :
    v.Leaves (s :: path) done s' ↔ done = [] ∧ s' = s := by
  constructor
  · rintro ⟨⟨rest, hpath⟩, u, hu, -⟩
    cases done with
    | nil => exact ⟨rfl, (List.cons.inj hpath).1.symm⟩
    | cons t before =>
      rw [← (List.cons.inj hpath).1, follow?, hs] at hu
      contradiction
  · rintro ⟨rfl, rfl⟩
    exact ⟨⟨path, rfl⟩, v, rfl, hs⟩

/-- **A path is left at one segment only.** -/
theorem Leaves.unique (h : v.Leaves path done s) (h' : v.Leaves path done' s') :
    done = done' ∧ s = s' := by
  induction path generalizing v done done' with
  | nil => exact absurd h not_leaves_nil
  | cons t path ih =>
    cases ht : t.enter? v with
    | none =>
      obtain ⟨rfl, rfl⟩ := (leaves_cons_of_none ht).1 h
      obtain ⟨rfl, rfl⟩ := (leaves_cons_of_none ht).1 h'
      exact ⟨rfl, rfl⟩
    | some w =>
      obtain ⟨before, rfl, hw⟩ := (leaves_cons_of_some ht).1 h
      obtain ⟨before', rfl, hw'⟩ := (leaves_cons_of_some ht).1 h'
      obtain ⟨rfl, rfl⟩ := ih hw hw'
      exact ⟨rfl, rfl⟩

end Value

/-! ## The walk -/

namespace Expression

variable {root : Root} {whole path done : List Segment} {v w : Value} {f : LookupError}

/-- **A walk ends** where following the path ends. -/
theorem walk_eq_ok_iff : walk root whole done path v = .ok w ↔ v.follow? path = some w := by
  induction path generalizing done v with
  | nil => rw [walk, Value.follow?, Except.ok.injEq, Option.some.injEq]
  | cons s rest ih =>
    rw [walk, Value.follow?]
    cases s.enter? v with
    | none => exact ⟨nofun, nofun⟩
    | some u => exact ih

/-- **A walk fails** at the segment at which the path leaves the value. -/
theorem walk_eq_error_iff : walk root whole done path v = .error f ↔
    ∃ before s, v.Leaves path before s ∧
      f = ⟨dotted root whole, .notFound s (dotted root (done ++ before))⟩ := by
  induction path generalizing done v with
  | nil =>
    rw [walk]
    exact ⟨nofun, fun ⟨_, _, h, _⟩ => absurd h Value.not_leaves_nil⟩
  | cons s rest ih =>
    rw [walk]
    cases hs : s.enter? v with
    | none =>
      constructor
      · intro hf
        refine ⟨[], s, (Value.leaves_cons_of_none hs).2 ⟨rfl, rfl⟩, ?_⟩
        rw [← Except.error.inj hf, List.append_nil]
      · rintro ⟨before, s', h, rfl⟩
        obtain ⟨rfl, rfl⟩ := (Value.leaves_cons_of_none hs).1 h
        rw [List.append_nil]
    | some u =>
      refine ih.trans ⟨?_, ?_⟩
      · rintro ⟨before, s', h, rfl⟩
        refine ⟨s :: before, s', (Value.leaves_cons_of_some hs).2 ⟨before, rfl, h⟩, ?_⟩
        rw [List.append_assoc, List.singleton_append]
      · rintro ⟨_, s', h, rfl⟩
        obtain ⟨before, rfl, hu⟩ := (Value.leaves_cons_of_some hs).1 h
        refine ⟨before, s', hu, ?_⟩
        rw [List.append_assoc, List.singleton_append]

/-- The path of a reference from the top of the snapshot. -/
def wholePath (e : Expression) : List Segment := .field e.root.word :: e.path

end Expression

/-! ## The snapshot -/

namespace Context

variable {c : Context} {root : Root} {name : String} {rest done : List Segment} {v : Value} {s : Segment}

/-- What the snapshot has under the word of a root. -/
def entries (c : Context) : Root → Fields
  | .input => c.inputs
  | .stepOutput => Table.mapValues (fun v => .obj [("output", v)]) c.outputs
  | .config => c.config

theorem enter?_toValue (c : Context) (root : Root) :
    (Segment.field root.word).enter? c.toValue = some (.obj (c.entries root)) := by
  cases root <;> rfl

/-- A path into the snapshot goes on from the entry of the name. -/
theorem follow?_toValue : c.toValue.follow? (.field root.word :: .field name :: rest) =
    ((c.entries root).get? name).bind (Value.follow? rest) := by
  rw [Value.follow?, enter?_toValue]
  rfl

/-- It is left behind the name where it is left from the entry. -/
theorem leaves_toValue : c.toValue.Leaves (.field root.word :: .field name :: rest)
      (.field root.word :: .field name :: done) s ↔
    ∃ v, (c.entries root).get? name = some v ∧ v.Leaves rest done s := by
  rw [Value.leaves_cons_of_some (enter?_toValue c root)]
  constructor
  · rintro ⟨_, hbefore, h⟩
    obtain rfl := (List.cons.inj hbefore).2
    cases hv : (Segment.field name).enter? (.obj (c.entries root)) with
    | none => exact absurd ((Value.leaves_cons_of_none hv).1 h).1 (List.cons_ne_nil _ _)
    | some v =>
      obtain ⟨before, hbefore, h⟩ := (Value.leaves_cons_of_some hv).1 h
      obtain rfl := (List.cons.inj hbefore).2
      exact ⟨v, hv, h⟩
  · rintro ⟨v, hv, h⟩
    have hv : (Segment.field name).enter? (.obj (c.entries root)) = some v := hv
    exact ⟨_, rfl, (Value.leaves_cons_of_some hv).2 ⟨done, rfl, h⟩⟩

/-- **What a reference names** in the snapshot of a context. -/
inductive Names (c : Context) (e : Expression) : Value → Prop
  /-- An input that is not given counts as null. -/
  | absent : e.root = .input → c.inputs.get? e.rootName = none → Names c e .null
  /-- Whatever else it names, its path leads to it. -/
  | found {v : Value} : c.toValue.follow? e.wholePath = some v → Names c e v

/-- **What is wrong with a reference** that names nothing. The error says the whole path; once there is
something of the name, it also says which segment is the first that is not found, and what is before it.
-/
inductive Blames (c : Context) (e : Expression) : LookupError → Prop
  /-- There is no configuration value of the name. -/
  | configUnset : e.root = .config → c.config.get? e.rootName = none →
      Blames c e ⟨e.dottedPath, .configUnset e.rootName⟩
  /-- There is no output of a step of the name. -/
  | noOutput : e.root = .stepOutput → c.outputs.get? e.rootName = none →
      Blames c e ⟨e.dottedPath, .noOutput e.rootName⟩
  /-- The path leaves the snapshot behind the name. -/
  | lost {done : List Segment} {s : Segment} :
      c.toValue.Leaves e.wholePath (.field e.root.word :: .field e.rootName :: done) s →
      Blames c e ⟨e.dottedPath, .notFound s (dotted e.root (.field e.rootName :: done))⟩

end Context

/-! ## Both views -/

namespace Expression

variable {e : Expression} {c : Context} {v : Value} {f : LookupError} {text : String}

/-- A reference that was read has a name behind the root, and for a step the word `output` behind that.
-/
theorem Follows.path_eq (h : Follows e.root e.path) : ∃ rest, e.path = .field e.rootName :: rest ∧
    (e.root = .stepOutput → ∃ inner, rest = .field "output" :: inner) := by
  obtain ⟨name, rest, hpath, houtput⟩ := h
  have hname : e.rootName = name := by rw [rootName, hpath]
  refine ⟨rest, by rw [hname, hpath], fun hroot => ?_⟩
  obtain ⟨inner, hinner⟩ := List.head?_eq_some_iff.1 (houtput hroot)
  exact ⟨inner, hinner⟩

/-- **Where the name has an entry**, a reference is looked up by a walk from there. -/
theorem lookup_of_entry {rest : List Segment} (hpath : e.path = .field e.rootName :: rest)
    (houtput : e.root = .stepOutput → ∃ inner, rest = .field "output" :: inner)
    (hv : (c.entries e.root).get? e.rootName = some v) :
    e.lookup c = walk e.root e.path [.field e.rootName] rest v := by
  have htake : e.path.take 1 = [.field e.rootName] := by rw [hpath]; rfl
  have hdrop : e.path.drop 1 = rest := by rw [hpath]; rfl
  unfold lookup
  cases hroot : e.root with
  | input =>
    rw [hroot, Context.entries] at hv
    simp only [hv, htake, hdrop]
  | config =>
    rw [hroot, Context.entries] at hv
    simp only [hv, htake, hdrop]
  | stepOutput =>
    -- the snapshot holds the output inside an object, and the path has the word for that
    obtain ⟨inner, rfl⟩ := houtput hroot
    rw [hroot, Context.entries, Table.get?_mapValues] at hv
    obtain ⟨output, hget, rfl⟩ := Option.map_eq_some_iff.1 hv
    simp only [hget]
    rw [hpath]
    rfl

/-- Where it has none, an input counts as null, and all else is an error. -/
theorem lookup_of_no_entry (hv : (c.entries e.root).get? e.rootName = none) :
    e.lookup c = match e.root with
      | .input => .ok .null
      | .config => .error ⟨e.dottedPath, .configUnset e.rootName⟩
      | .stepOutput => .error ⟨e.dottedPath, .noOutput e.rootName⟩ := by
  unfold lookup
  cases hroot : e.root with
  | input => rw [hroot, Context.entries] at hv; simp only [hv]
  | config => rw [hroot, Context.entries] at hv; simp only [hv]
  | stepOutput =>
    rw [hroot, Context.entries, Table.get?_mapValues, Option.map_eq_none_iff] at hv
    simp only [hv]

/-- **A reference finds** what it names in the snapshot. -/
theorem lookup_eq_ok_iff (h : Follows e.root e.path) : e.lookup c = .ok v ↔ c.Names e v := by
  obtain ⟨rest, hpath, houtput⟩ := h.path_eq
  have hfollow : c.toValue.follow? e.wholePath =
      ((c.entries e.root).get? e.rootName).bind (Value.follow? rest) := by
    rw [wholePath, hpath, Context.follow?_toValue]
  cases hentry : (c.entries e.root).get? e.rootName with
  | some u =>
    rw [lookup_of_entry hpath houtput hentry, walk_eq_ok_iff]
    rw [hentry, Option.bind_some] at hfollow
    refine ⟨fun hu => .found (hfollow.trans hu), ?_⟩
    rintro (⟨hroot, hnone⟩ | hv)
    · rw [hroot, Context.entries, hnone] at hentry
      contradiction
    · exact hfollow.symm.trans hv
  | none =>
    rw [lookup_of_no_entry hentry]
    rw [hentry, Option.bind_none] at hfollow
    have hnot : ¬ ∃ v, c.toValue.follow? e.wholePath = some v := by
      rw [hfollow]
      exact nofun
    cases hroot : e.root with
    | input =>
      rw [hroot, Context.entries] at hentry
      constructor
      · intro hv
        rw [← Except.ok.inj hv]
        exact .absent hroot hentry
      · rintro (- | hv)
        · rfl
        · exact absurd ⟨v, hv⟩ hnot
    | config | stepOutput =>
      refine ⟨nofun, ?_⟩
      rintro (⟨hinput, -⟩ | hv)
      · rw [hroot] at hinput
        contradiction
      · exact absurd ⟨v, hv⟩ hnot

/-- Where the name has an entry, a reference is blamed for the segment at which its path leaves the
entry. -/
theorem blames_of_entry {rest : List Segment} (hpath : e.path = .field e.rootName :: rest)
    (hv : (c.entries e.root).get? e.rootName = some v) :
    c.Blames e f ↔ ∃ done s, v.Leaves rest done s ∧
      f = ⟨e.dottedPath, .notFound s (dotted e.root (.field e.rootName :: done))⟩ := by
  constructor
  · rintro (⟨hroot, hnone⟩ | ⟨hroot, hnone⟩ | hlost)
    · rw [hroot, Context.entries, hnone] at hv
      contradiction
    · rw [hroot, Context.entries, Table.get?_mapValues, hnone] at hv
      contradiction
    · rw [wholePath, hpath, Context.leaves_toValue] at hlost
      obtain ⟨u, hu, hlost⟩ := hlost
      obtain rfl := Option.some.inj (hv.symm.trans hu)
      exact ⟨_, _, hlost, rfl⟩
  · rintro ⟨done, s, hlost, rfl⟩
    refine .lost ?_
    rw [wholePath, hpath, Context.leaves_toValue]
    exact ⟨v, hv, hlost⟩

/-- Where it has none, a reference is blamed for the name, unless that is the name of an input. -/
theorem blames_of_no_entry {rest : List Segment} (hpath : e.path = .field e.rootName :: rest)
    (hv : (c.entries e.root).get? e.rootName = none) :
    c.Blames e f ↔ match e.root with
      | .input => False
      | .config => f = ⟨e.dottedPath, .configUnset e.rootName⟩
      | .stepOutput => f = ⟨e.dottedPath, .noOutput e.rootName⟩ := by
  constructor
  · rintro (⟨hroot, -⟩ | ⟨hroot, -⟩ | hlost)
    · rw [hroot]
    · rw [hroot]
    · rw [wholePath, hpath, Context.leaves_toValue, hv] at hlost
      obtain ⟨_, hu, -⟩ := hlost
      contradiction
  · cases hroot : e.root with
    | input => exact False.elim
    | config =>
      rintro rfl
      rw [hroot] at hv
      exact .configUnset hroot hv
    | stepOutput =>
      rintro rfl
      rw [hroot, Context.entries, Table.get?_mapValues, Option.map_eq_none_iff] at hv
      exact .noOutput hroot hv

/-- **A reference fails** with what is wrong with it. -/
theorem lookup_eq_error_iff (h : Follows e.root e.path) : e.lookup c = .error f ↔ c.Blames e f := by
  obtain ⟨rest, hpath, houtput⟩ := h.path_eq
  cases hentry : (c.entries e.root).get? e.rootName with
  | some u =>
    rw [lookup_of_entry hpath houtput hentry, walk_eq_error_iff, blames_of_entry hpath hentry]
    rfl
  | none =>
    rw [lookup_of_no_entry hentry, blames_of_no_entry hpath hentry]
    cases e.root with
    | input => exact ⟨nofun, False.elim⟩
    | config | stepOutput => exact ⟨fun hf => (Except.error.inj hf).symm, fun hf => hf ▸ rfl⟩

/-- **Looking up is following a path**: a reference that was read has the value that it names in the
snapshot of the context, or the opposite of its truth if it is negated, and the error says what is wrong
with a reference that names nothing. -/
theorem evaluate_follows_snapshot (h : parse text = .ok e) (c : Context) :
    (∀ w, e.evaluate c = .ok w ↔
      ∃ v, c.Names e v ∧ w = if e.negated then .bool !v.truthy else v) ∧
    ∀ f, e.evaluate c = .error f ↔ (∀ v, ¬c.Names e v) ∧ c.Blames e f := by
  have hfollows := (parse_eq_ok_iff.1 h).follows
  have hok {v : Value} := lookup_eq_ok_iff (c := c) (v := v) hfollows
  have herror {f : LookupError} := lookup_eq_error_iff (c := c) (f := f) hfollows
  rw [evaluate]
  cases hl : e.lookup c with
  | ok u =>
    have hnames : ∀ v, c.Names e v ↔ v = u := fun v => by
      rw [← hok, hl, Except.ok.injEq, eq_comm]
    refine ⟨fun w => ⟨fun hw => ⟨u, (hnames u).2 rfl, (Except.ok.inj hw).symm⟩, ?_⟩, fun f => ?_⟩
    · rintro ⟨v, hv, rfl⟩
      rw [(hnames v).1 hv]
      rfl
    · exact ⟨nofun, fun hf => absurd ((hnames u).2 rfl) (hf.1 u)⟩
  | error g =>
    have hnone : ∀ v, ¬c.Names e v := fun v hv => by
      rw [← hok, hl] at hv
      contradiction
    have hblames : ∀ f, c.Blames e f ↔ f = g := fun f => by
      rw [← herror, hl, Except.error.injEq, eq_comm]
    refine ⟨fun w => ⟨nofun, fun ⟨v, hv, _⟩ => absurd hv (hnone v)⟩, fun f => ?_⟩
    rw [hblames, and_iff_right hnone]
    exact ⟨fun hf => (Except.error.inj hf).symm, fun hf => hf ▸ rfl⟩

end Expression

namespace Sample

/-- A context in which a step has produced a list. -/
def listing : Context := ({} : Context).setOutput "list" (.obj [("files", .arr [.str "a.rs"])])

end Sample

namespace Expression

/-- A path into the output of a step that gets lost behind the place 0, and one that does not. -/
theorem evaluate_follows_snapshot_listing :
    (∃ e, parse "$\x7b\x7b steps.list.output.files[0].name \x7d\x7d" = .ok e ∧
      Sample.listing.Blames e ⟨"steps.list.output.files.0.name",
        .notFound (.field "name") "steps.list.output.files.0"⟩) ∧
    ∃ e, parse "$\x7b\x7b not steps.list.output.files[0] \x7d\x7d" = .ok e ∧
      ∃ v, Sample.listing.Names e v ∧ Value.bool false = if e.negated then .bool !v.truthy else v := by
  have hlost : parse "$\x7b\x7b steps.list.output.files[0].name \x7d\x7d" =
      .ok ⟨"$\x7b\x7b steps.list.output.files[0].name \x7d\x7d", .stepOutput,
        [.field "list", .field "output", .field "files", .index 0, .field "name"], false⟩ := rfl
  have hfound : parse "$\x7b\x7b not steps.list.output.files[0] \x7d\x7d" =
      .ok ⟨"$\x7b\x7b not steps.list.output.files[0] \x7d\x7d", .stepOutput,
        [.field "list", .field "output", .field "files", .index 0], true⟩ := rfl
  exact ⟨⟨_, hlost, (((evaluate_follows_snapshot hlost Sample.listing).2 _).1 rfl).2⟩,
    ⟨_, hfound, ((evaluate_follows_snapshot hfound Sample.listing).1 _).1 rfl⟩⟩

end Expression

end Stepflow
