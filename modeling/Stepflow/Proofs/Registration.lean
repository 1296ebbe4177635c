import Mathlib.Data.List.DropRight
import Stepflow.Registry.Basic

/-!
# A registry over a whole history

A registry is called in any order: components are registered, names are looked up and checked, the
failures that were put off are listed and taken out. What it answers to a call, and what it holds
afterwards, can be read off the calls made before, without the registry: in each namespace a name stands
for what was first registered under it (`first?`), and what is put off are the lookups and checks since
the last taking out whose names stood for nothing when they were made (`deferrals`).
-/

namespace Stepflow.Registry

variable {κ : Type}

/-! ## Calls and replies -/

/-- A component of any namespace. -/
inductive Component (κ : Type) where
  /-- One of a namespace other than that of workflows. -/
  | external (c : κ)
  /-- A workflow. -/
  | workflow (w : Workflow)

/-- What can be registered, with the name and the namespace it is registered under. -/
inductive Entry (κ : Type) where
  /-- A component of one of the first four namespaces. -/
  | external (space : Namespace) (hspace : space ≠ .workflows) (name : String) (c : κ)
  /-- A workflow, under its own name. -/
  | workflow (w : Workflow)

namespace Entry

/-- The namespace. -/
def space : Entry κ → Namespace
  | .external space .. => space
  | .workflow _ => .workflows

/-- The name. -/
def name : Entry κ → String
  | .external _ _ name _ => name
  | .workflow w => w.name

/-- The component. -/
def component : Entry κ → Component κ
  | .external _ _ _ c => .external c
  | .workflow w => .workflow w

end Entry

/-- What a registry is called for. -/
inductive Call (κ : Type) where
  /-- To register something. -/
  | register (e : Entry κ)
  /-- What a name stands for, without putting anything off. -/
  | get (space : Namespace) (name : String)
  /-- What a name stands for. -/
  | lookup (space : Namespace) (name : String)
  /-- Whether a reference to a name is a failure. -/
  | referenceError (space : Namespace) (name location : String)
  /-- To check a reference to a name. -/
  | check (space : Namespace) (name location : String)
  /-- The failures that were put off. -/
  | deferred
  /-- To take them out. -/
  | takeDeferred

/-- What a registry replies. -/
inductive Reply (κ : Type) where
  /-- Whether a name is accepted. -/
  | done (r : Except RegistryError Unit)
  /-- The component of a name. -/
  | found (r : Except RegistryError (Component κ))
  /-- The component of a name, where `none` is a stand-in that fails when it is used. -/
  | looked (r : Except RegistryError (Option (Component κ)))
  /-- The failure that a reference is, if it is one. -/
  | failure (e : Option RegistryError)
  /-- The failures that were put off. -/
  | failures (es : List RegistryError)

/-- What a name stands for in any namespace. -/
def find? (r : Registry κ) (space : Namespace) (name : String) : Option (Component κ) :=
  match space with
  | .workflows => (r.workflows.get? name).map .workflow
  | space => (r.component? space name).map .external

/-- Registers something in its namespace. -/
def add (r : Registry κ) : Entry κ → Except RegistryError (Registry κ)
  | .external space _ name c => r.register space name c
  | .workflow w => r.registerWorkflow w

/-- What a registry replies to a call, and what becomes of it. -/
def perform : Call κ → Registry κ → Reply κ × Registry κ
  | .register e, r =>
    match r.add e with
    | .ok r' => (.done (.ok ()), r')
    | .error err => (.done (.error err), r)
  | .get space name, r =>
    (.found ((r.find? space name).elim (.error { kind := .notFound, space, name }) .ok), r)
  | .lookup .workflows name, r =>
    let (found, r) := r.lookupWorkflow name
    (.looked (found.map fun w => some (.workflow w)), r)
  | .lookup space name, r =>
    let (found, r) := r.lookup space name
    (.looked (found.map fun c => c.map .external), r)
  | .referenceError space name location, r => (.failure (r.referenceError? space name location), r)
  | .check space name location, r =>
    let (checked, r) := r.checkReference space name location
    (.done checked, r)
  | .deferred, r => (.failures r.deferred, r)
  | .takeDeferred, r =>
    let (es, r) := r.takeDeferred
    (.failures es, r)

/-- What it replies to one call after the other. -/
def replies : List (Call κ) → Registry κ → List (Reply κ)
  | [], _ => []
  | call :: rest, r => (perform call r).1 :: replies rest (perform call r).2

/-- What becomes of it. -/
def performAll (calls : List (Call κ)) (r : Registry κ) : Registry κ :=
  calls.foldl (fun r call => (perform call r).2) r

/-! ## What the calls alone say -/

/-- The component first registered under a name of a namespace. -/
def first? (calls : List (Call κ)) (space : Namespace) (name : String) : Option (Component κ) :=
  calls.findSome? fun
    | .register e => if e.space = space ∧ e.name = name then some e.component else none
    | _ => none

/-- What a lenient registry hands out for an unknown name. -/
def standIn (space : Namespace) (name : String) : Option (Component κ) :=
  match space with
  | .workflows => some (.workflow (placeholder name))
  | _ => none

/-- The failure that a lenient registry puts off at a call, made after some others. -/
def deferral? (before : List (Call κ)) : Call κ → Option RegistryError
  | .lookup space name =>
    if (first? before space name).isSome then none else some { kind := .deferred, space, name }
  | .check space name location =>
    if (first? before space name).isSome then none
    else some { kind := .deferred, space, name, location := some location }
  | _ => none

/-- Whether a call takes the failures out. -/
def Call.isTake : Call κ → Bool
  | .takeDeferred => true
  | _ => false

/-- The calls of a history, each with those made before it. -/
def moments (before : List (Call κ)) : List (Call κ) → List (List (Call κ) × Call κ)
  | [] => []
  | call :: rest => (before, call) :: moments (before ++ [call]) rest

/-- **The failures put off** since the last taking out, one for each lookup and each check of an unknown
name, in the order of the calls. -/
def deferrals (calls : List (Call κ)) : List RegistryError :=
  ((moments [] calls).rtakeWhile fun m => !m.2.isTake).filterMap fun m => deferral? m.1 m.2

/-- The kind of failure that an unknown name is on a registry. -/
def failureKind (lenient : Bool) : RegistryErrorKind := if lenient then .deferred else .notFound

/-- **The reply** to a call made after some others. -/
def reply (lenient : Bool) (before : List (Call κ)) : Call κ → Reply κ
  | .register e => .done (
    if (first? before e.space e.name).isSome then
      .error { kind := .duplicate, space := e.space, name := e.name }
    else .ok ())
  | .get space name => .found (
    match first? before space name with
    | some c => .ok c
    | none => .error { kind := .notFound, space, name })
  | .lookup space name => .looked (
    match first? before space name with
    | some c => .ok (some c)
    | none => if lenient then .ok (standIn space name) else .error { kind := .notFound, space, name })
  | .referenceError space name location => .failure (
    if (first? before space name).isSome then none
    else some { kind := failureKind lenient, space, name, location := some location })
  | .check space name location => .done (
    if (first? before space name).isSome ∨ lenient then .ok ()
    else .error { kind := .notFound, space, name, location := some location })
  | .deferred | .takeDeferred => .failures (if lenient then deferrals before else [])

/-- **A registry after a history**: what it holds and what it has put off. -/
structure Follows (lenient : Bool) (calls : List (Call κ)) (r : Registry κ) : Prop where
  /-- It is as lenient as it was made. -/
  mode : r.lenient = lenient
  /-- A name stands for what was first registered under it. -/
  holds : ∀ space name, r.find? space name = first? calls space name
  /-- What was put off since it was last taken out is still there; a strict registry puts nothing off. -/
  log : r.deferred = if lenient then deferrals calls else []

/-! ## One more call -/

section Histories

variable {calls before : List (Call κ)} {call : Call κ} {space : Namespace} {name location : String}

theorem first?_append : first? (calls ++ [call]) space name =
    (first? calls space name).or (first? [call] space name) := by
  rw [first?, List.findSome?_append]
  rfl

theorem moments_append : moments before (calls ++ [call]) =
    moments before calls ++ [(before ++ calls, call)] := by
  induction calls generalizing before with
  | nil => rw [List.append_nil]; rfl
  | cons c rest ih =>
    rw [List.cons_append, moments, ih, List.append_assoc]
    rfl

/-- One more call takes everything out, or puts one more failure off, or none. -/
theorem deferrals_append : deferrals (calls ++ [call]) =
    if call.isTake then [] else deferrals calls ++ (deferral? calls call).toList := by
  rw [deferrals, moments_append, List.nil_append]
  split
  · next htake => rw [List.rtakeWhile_concat_neg _ _ _ (by simpa using htake), List.filterMap_nil]
  · next htake =>
    rw [List.rtakeWhile_concat_pos _ _ _ (by simpa using htake), List.filterMap_append, ← deferrals]
    cases h : deferral? calls call <;> simp [h]

end Histories

section Steps

variable {r : Registry κ} {space : Namespace} {name location : String} {e : Entry κ}

theorem has_eq : r.has space name = (r.find? space name).isSome := by
  cases space <;> simp [has, find?, component?, Table.contains]

/-- Something put off changes nothing about the names. -/
theorem find?_congr {r' : Registry κ} (h : r' = { r with deferred := r'.deferred }) :
    r'.find? space name = r.find? space name := by
  rw [h]
  cases space <;> rfl

theorem find?_defer {err : RegistryError} : (r.defer err).find? space name = r.find? space name :=
  find?_congr rfl

/-- **A name that is taken** is refused. -/
theorem add_of_some (h : (r.find? e.space e.name).isSome) :
    r.add e = .error { kind := .duplicate, space := e.space, name := e.name } := by
  rw [← has_eq] at h
  cases e with
  | external => exact if_pos h
  | workflow => exact if_pos h

/-- **A new name** stands for what was registered, and all others stand for what they stood for. -/
theorem add_of_none (h : r.find? e.space e.name = none) : ∃ r', r.add e = .ok r' ∧
    r'.lenient = r.lenient ∧ r'.deferred = r.deferred ∧
      ∀ space name, r'.find? space name =
        if e.space = space ∧ e.name = name then some e.component else r.find? space name := by
  have hnew : ¬r.has e.space e.name := by rw [has_eq, h]; nofun
  have hinsert {α : Type} (t : Table α) (f : α → Component κ) (name other : String) (a : α) :
      ((t.insert name a).get? other).map f = if name = other then some (f a) else (t.get? other).map f := by
    rw [Table.get?_insert, apply_ite (Option.map f), Option.map_some]
  cases e with
  | external target htarget taken c =>
    cases target with
    | workflows => contradiction
    | _ =>
      refine ⟨_, if_neg hnew, rfl, rfl, fun space name => ?_⟩
      cases space <;> simp [find?, component?, Entry.space, Entry.name, Entry.component, hinsert]
  | workflow w =>
    refine ⟨_, if_neg hnew, rfl, rfl, fun space name => ?_⟩
    cases space <;> simp [find?, component?, Entry.space, Entry.name, Entry.component, hinsert]

theorem find?_of_ne (hspace : space ≠ .workflows) :
    r.find? space name = (r.component? space name).map .external := by
  cases space with
  | workflows => contradiction
  | _ => rfl

theorem standIn_of_ne (hspace : space ≠ .workflows) :
    (standIn space name : Option (Component κ)) = none := by
  cases space with
  | workflows => contradiction
  | _ => rfl

/-- **A lookup** gives what the name stands for. For an unknown name it fails, or puts the failure off
and hands out a stand-in. -/
theorem perform_lookup (r : Registry κ) (space : Namespace) (name : String) :
    perform (.lookup space name) r =
      match r.find? space name with
      | some c => (.looked (.ok (some c)), r)
      | none =>
        if r.lenient then
          (.looked (.ok (standIn space name)), r.defer { kind := .deferred, space, name })
        else (.looked (.error { kind := .notFound, space, name }), r) := by
  by_cases hspace : space = .workflows
  · subst hspace
    simp only [perform, lookupWorkflow, resolveWorkflow, find?]
    cases r.workflows.get? name with
    | some w => rfl
    | none => cases h : r.lenient <;> simp [resolveWith, unknownKind, h, Except.map, standIn]
  · rw [find?_of_ne hspace, standIn_of_ne hspace]
    have hperform : perform (.lookup space name) r =
        (.looked ((r.lookup space name).1.map fun c => c.map .external), (r.lookup space name).2) := by
      cases space with
      | workflows => contradiction
      | _ => rfl
    rw [hperform, lookup, resolve]
    cases r.component? space name with
    | some c => rfl
    | none => cases h : r.lenient <;> simp [resolveWith, unknownKind, h, Except.map]

/-- **A check** succeeds if the name stands for something. For an unknown name it fails, or puts the
failure off. -/
theorem checkReference_eq (r : Registry κ) (space : Namespace) (name location : String) :
    r.checkReference space name location =
      if (r.find? space name).isSome then (.ok (), r)
      else if r.lenient then
        (.ok (), r.defer { kind := .deferred, space, name, location := some location })
      else (.error { kind := .notFound, space, name, location := some location }, r) := by
  rw [checkReference, referenceError?, has_eq]
  cases (r.find? space name).isSome with
  | true => rfl
  | false => cases h : r.lenient <;> simp [unknownKind, h]

end Steps

/-! ## The whole history -/

section Follows

variable {lenient : Bool} {before calls : List (Call κ)} {call : Call κ} {r r' : Registry κ}

/-- A call that a registry follows is told by what it changes. -/
theorem Follows.append (h : Follows lenient calls r) (hmode : r'.lenient = r.lenient)
    (hholds : ∀ space name, r'.find? space name = (r.find? space name).or (first? [call] space name))
    (hlog : r'.deferred = if call.isTake then [] else
      r.deferred ++ if lenient then (deferral? calls call).toList else []) :
    Follows lenient (calls ++ [call]) r' where
  mode := hmode.trans h.mode
  holds space name := by rw [hholds, h.holds, first?_append]
  log := by
    rw [hlog, h.log, deferrals_append]
    cases lenient <;> cases call.isTake <;> simp

/-- A call that only asks leaves the registry as it was. -/
theorem Follows.append_self (h : Follows lenient calls r)
    (hnone : ∀ space name, first? [call] space name = none) (htake : call.isTake = false)
    (hquiet : lenient = true → deferral? calls call = none) : Follows lenient (calls ++ [call]) r :=
  h.append rfl (fun space name => by rw [hnone, Option.or_none]) <| by
    rw [htake]
    cases hl : lenient with
    | false => simp
    | true => simp [hquiet hl]

theorem first?_register (e : Entry κ) (space : Namespace) (name : String) :
    first? [.register e] space name =
      if e.space = space ∧ e.name = name then some e.component else none := by
  rw [first?, List.findSome?_singleton]

/-- **An unknown name** leaves a strict registry as it was, and one more failure in the log of a lenient
one. -/
theorem Follows.unknown (h : Follows lenient calls r) {err : RegistryError}
    (hnone : ∀ space name, first? [call] space name = none) (htake : call.isTake = false)
    (hdeferral : deferral? calls call = some err) :
    Follows lenient (calls ++ [call]) (if lenient then r.defer err else r) := by
  cases lenient with
  | false => exact h.append_self hnone htake nofun
  | true =>
    refine h.append rfl (fun space name => ?_) ?_
    · rw [hnone, Option.or_none]
      exact find?_defer
    · rw [htake, hdeferral]
      rfl

/-- **Registering** is replied to as the calls before say, and followed. -/
theorem Follows.perform_register (h : Follows lenient calls r) (e : Entry κ) :
    (perform (.register e) r).1 = reply lenient calls (.register e) ∧
      Follows lenient (calls ++ [.register e]) (perform (.register e) r).2 := by
  have hlog {es : List RegistryError} : es = if (Call.register e).isTake then [] else
      es ++ if lenient then (deferral? calls (Call.register e)).toList else [] := by
    cases lenient <;> simp [Call.isTake, deferral?]
  rw [perform, reply, ← h.holds]
  cases hfind : r.find? e.space e.name with
  | some c =>
    rw [add_of_some (by rw [hfind]; rfl)]
    refine ⟨rfl, h.append rfl (fun space name => ?_) hlog⟩
    rw [first?_register]
    dsimp only
    split
    · next hsame => rw [← hsame.1, ← hsame.2, hfind, Option.some_or]
    · exact Option.or_none.symm
  | none =>
    obtain ⟨r', hadd, hmode, hdeferred, hholds⟩ := add_of_none hfind
    rw [hadd]
    refine ⟨rfl, h.append hmode (fun space name => ?_) (hdeferred ▸ hlog)⟩
    rw [hholds, first?_register]
    split
    · next hsame => rw [← hsame.1, ← hsame.2, hfind, Option.none_or]
    · exact Option.or_none.symm

/-- **A lookup** is replied to as the calls before say, and followed. -/
theorem Follows.perform_lookup (h : Follows lenient calls r) (space : Namespace) (name : String) :
    (perform (.lookup space name) r).1 = reply lenient calls (.lookup space name) ∧
      Follows lenient (calls ++ [.lookup space name]) (perform (.lookup space name) r).2 := by
  have hdeferral : deferral? calls (.lookup space name) =
      if (r.find? space name).isSome then none else some { kind := .deferred, space, name } := by
    rw [h.holds]
    rfl
  rw [Registry.perform_lookup, reply, ← h.holds, h.mode]
  cases hfind : r.find? space name with
  | some c =>
    rw [hfind] at hdeferral
    exact ⟨rfl, h.append_self (fun _ _ => rfl) rfl fun _ => hdeferral⟩
  | none =>
    rw [hfind] at hdeferral
    have hfollows := h.unknown (fun _ _ => rfl) rfl hdeferral
    cases lenient <;> exact ⟨rfl, hfollows⟩

/-- **A check** is replied to as the calls before say, and followed. -/
theorem Follows.perform_check (h : Follows lenient calls r) (space : Namespace)
    (name location : String) :
    (perform (.check space name location) r).1 = reply lenient calls (.check space name location) ∧
      Follows lenient (calls ++ [.check space name location])
        (perform (.check space name location) r).2 := by
  have hdeferral : deferral? calls (.check space name location) =
      if (r.find? space name).isSome then none
      else some { kind := .deferred, space, name, location := some location } := by
    rw [h.holds]
    rfl
  rw [Registry.perform, checkReference_eq, reply, ← h.holds, h.mode]
  cases hfind : r.find? space name with
  | some c =>
    rw [hfind] at hdeferral
    exact ⟨by simp, h.append_self (fun _ _ => rfl) rfl fun _ => hdeferral⟩
  | none =>
    rw [hfind] at hdeferral
    have hfollows := h.unknown (fun _ _ => rfl) rfl hdeferral
    cases lenient <;> exact ⟨rfl, hfollows⟩

/-- **Every call** is replied to as the calls before say, and followed. -/
theorem Follows.perform (h : Follows lenient calls r) (call : Call κ) :
    (perform call r).1 = reply lenient calls call ∧ Follows lenient (calls ++ [call]) (perform call r).2 := by
  cases call with
  | register e => exact h.perform_register e
  | get space name =>
    refine ⟨?_, h.append_self (fun _ _ => rfl) rfl fun _ => rfl⟩
    rw [Registry.perform, reply, h.holds]
    cases first? calls space name <;> rfl
  | lookup space name => exact h.perform_lookup space name
  | referenceError space name location =>
    refine ⟨?_, h.append_self (fun _ _ => rfl) rfl fun _ => rfl⟩
    rw [Registry.perform, reply, referenceError?, has_eq, h.holds, unknownKind, h.mode]
    rfl
  | check space name location => exact h.perform_check space name location
  | deferred =>
    refine ⟨?_, h.append_self (fun _ _ => rfl) rfl fun _ => rfl⟩
    rw [Registry.perform, reply, h.log]
  | takeDeferred =>
    refine ⟨by rw [Registry.perform, reply, takeDeferred, h.log], ?_⟩
    exact h.append rfl (fun space name => (find?_congr rfl).trans Option.or_none.symm) rfl

/-- **One call after the other** is replied to as the calls before it say. -/
theorem Follows.performAll (h : Follows lenient before r) (calls : List (Call κ)) :
    replies calls r = (moments before calls).map (fun m => reply lenient m.1 m.2) ∧
      Follows lenient (before ++ calls) (performAll calls r) := by
  induction calls generalizing before r with
  | nil => exact ⟨rfl, (List.append_nil before).symm ▸ h⟩
  | cons call rest ih =>
    obtain ⟨hreply, hstep⟩ := h.perform call
    obtain ⟨hreplies, hrest⟩ := ih hstep
    rw [List.append_assoc] at hrest
    exact ⟨by rw [replies, moments, List.map_cons, hreply, hreplies], hrest⟩

/-- A new registry has no names and has put nothing off. -/
theorem follows_new (lenient : Bool) : Follows lenient [] ({ lenient } : Registry κ) where
  mode := rfl
  holds space _ := by cases space <;> rfl
  log := (ite_self _).symm

end Follows

/-- **A registry over a whole history.** After any calls of a new registry, strict or lenient:

* every reply was the one that the calls before it determine;
* a name stands for what was first registered under it in its namespace, a name that is taken is
  refused and nothing changes, and a new one changes what no other name stands for, in no namespace;
* what is put off are the lookups and checks of unknown names since the last taking out, if the registry
  is lenient, and nothing if it is strict;
* a reference is a failure exactly if checking it now fails or puts a failure off. -/
theorem performAll_history (lenient : Bool) (calls : List (Call κ)) :
    let r : Registry κ := performAll calls { lenient }
    replies calls { lenient } = (moments [] calls).map (fun m => reply lenient m.1 m.2) ∧
      (∀ space name, r.find? space name = first? calls space name) ∧
      (∀ e : Entry κ, (first? calls e.space e.name).isSome → perform (.register e) r =
        (.done (.error { kind := .duplicate, space := e.space, name := e.name }), r)) ∧
      (∀ (e : Entry κ) (space : Namespace) (name : String), ¬(e.space = space ∧ e.name = name) →
        (perform (.register e) r).2.find? space name = r.find? space name) ∧
      r.deferred = (if lenient then deferrals calls else []) ∧
      ∀ space name location, (r.referenceError? space name location).isSome ↔
        (r.checkReference space name location).1 ≠ .ok () ∨
          (r.checkReference space name location).2.deferred ≠ r.deferred := by
  intro r
  have hnew : Follows lenient [] ({ lenient } : Registry κ) := follows_new lenient
  obtain ⟨hreplies, hfollows⟩ := hnew.performAll calls
  have hfollows : Follows lenient calls r := hfollows
  clear_value r
  refine ⟨hreplies, hfollows.holds, fun e he => ?_, fun e space name hother => ?_, hfollows.log,
    fun space name location => ?_⟩
  · rw [← hfollows.holds] at he
    rw [perform, add_of_some he]
  · have hafter := (hfollows.perform_register e).2.holds space name
    rw [hafter, first?_append, first?_register, if_neg hother, Option.or_none, hfollows.holds]
  · rw [referenceError?, has_eq, checkReference_eq]
    cases (r.find? space name).isSome <;> cases r.lenient <;> simp [defer]

/-- A name is put off once for every call that asks for it, and not after it was registered or what was
put off was taken out. -/
example : deferrals ([.lookup .agents "a", .takeDeferred, .lookup .agents "a",
      .check .agents "a" "steps[0]", .register (.external .agents nofun "a" ()), .lookup .agents "a",
      .lookup .generators "a"] : List (Call Unit)) =
    [{ kind := .deferred, space := .agents, name := "a" },
      { kind := .deferred, space := .agents, name := "a", location := some "steps[0]" },
      { kind := .deferred, space := .generators, name := "a" }] := by
  decide

end Stepflow.Registry
