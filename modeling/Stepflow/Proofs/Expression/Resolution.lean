import Stepflow.Proofs.Expression.Cutting

/-!
# Which references resolving a value looks up

`Context.resolve` gives a value and does not say which references it looked up on the way. Here it is
written once more for any way to look a reference up (`resolveWith`), which is the same program when a
reference is looked up in a context (`resolveWith_look`). A way that also writes the references down
gives `Context.lookedUp`; leaving out what was written down, it resolves as before
(`result_resolveLogged`).
-/

namespace Stepflow

open Text Expression Embedded

namespace Context

section AnyWay

variable {m : Type → Type} [Monad m] [MonadLiftT (Except Failure) m] (look : Expression → m Value)

/-- Reads a reference, or fails. -/
def readReference (cs : List Char) : m Expression :=
  liftM ((parse (String.ofList cs)).mapError Failure.unreadable)

/-- Puts what looking the references up gives in their places. -/
def fillWith : List Piece → m String
  | [] => pure ""
  | .literal cs :: rest => do
    let after ← fillWith rest
    return String.ofList cs ++ after
  | .reference cs :: rest => do
    let e ← readReference cs
    let v ← look e
    let after ← fillWith rest
    return v.inText ++ after
  | .unterminated cs :: _ =>
    liftM (Except.error (Failure.unreadable ⟨String.ofList cs, .unterminated⟩) : Except Failure String)

/-- The value of a text, however references are looked up. -/
def substituteWith (text : String) : m Value :=
  let trimmed := trim text.toList
  if isSingle trimmed then do
    let e ← readReference trimmed
    look e
  else do
    let s ← fillWith look (cut text.toList)
    return .str s

mutual

/-- Resolves a value, however references are looked up. -/
def resolveWith : Value → m Value
  | .str s => if occursIn s then substituteWith look s else pure (.str s)
  | .arr items => do
    let ws ← resolveItemsWith items
    return .arr ws
  | .obj fields => do
    let ws ← resolveFieldsWith fields
    return .obj ws
  | .null => pure .null
  | .bool b => pure (.bool b)
  | .int n => pure (.int n)
  | .float x => pure (.float x)

/-- Resolves the members of a list, however references are looked up. -/
def resolveItemsWith : List Value → m (List Value)
  | [] => pure []
  | v :: rest => do
    let w ← resolveWith v
    let ws ← resolveItemsWith rest
    return w :: ws

/-- Resolves named values, however references are looked up. -/
def resolveFieldsWith : List (String × Value) → m (List (String × Value))
  | [] => pure []
  | (k, v) :: rest => do
    let w ← resolveWith v
    let ws ← resolveFieldsWith rest
    return (k, w) :: ws

end

end AnyWay

/-! ## Looking references up in a context -/

/-- Looks a reference up. -/
def look (c : Context) (e : Expression) : Except Failure Value := (e.evaluate c).mapError .unresolved

theorem fillWith_look (c : Context) (ps : List Piece) : fillWith c.look ps = c.fill ps := by
  induction ps with
  | nil => rfl
  | cons p rest ih =>
    cases p with
    | literal cs =>
      rw [fillWith, fill, ih]
    | reference cs =>
      rw [fillWith, fill, ih]
      rfl
    | unterminated cs => rfl

theorem substituteWith_look (c : Context) (text : String) :
    substituteWith c.look text = c.substitute text := by
  dsimp only [substituteWith, substitute]
  rw [fillWith_look]
  split
  · rfl
  · cases c.fill (cut text.toList) <;> rfl

mutual

/-- **Resolving a value** is looking its references up in the context. -/
theorem resolveWith_look (c : Context) : ∀ v, resolveWith c.look v = c.resolve v
  | .str s => by rw [resolveWith, resolve, substituteWith_look]; rfl
  | .arr items => by
    rw [resolveWith, resolve, resolveItemsWith_look]
    cases c.resolveItems items <;> rfl
  | .obj fields => by
    rw [resolveWith, resolve, resolveFieldsWith_look]
    cases c.resolveFields fields <;> rfl
  | .null | .bool _ | .int _ | .float _ => by rw [resolveWith, resolve]; rfl

theorem resolveItemsWith_look (c : Context) :
    ∀ items, resolveItemsWith c.look items = c.resolveItems items
  | [] => by rw [resolveItemsWith, resolveItems]; rfl
  | v :: rest => by
    rw [resolveItemsWith, resolveItems, resolveWith_look c v, resolveItemsWith_look c rest]

theorem resolveFieldsWith_look (c : Context) :
    ∀ fields, resolveFieldsWith c.look fields = c.resolveFields fields
  | [] => by rw [resolveFieldsWith, resolveFields]; rfl
  | (k, v) :: rest => by
    rw [resolveFieldsWith, resolveFields, resolveWith_look c v, resolveFieldsWith_look c rest]

end

end Context

/-! ## Writing references down -/

/-- What a computation has looked up, and what it came to. -/
structure Logged (α : Type) where
  /-- The references that were looked up, in order. -/
  log : List Expression
  /-- The value, or the failure that ended it. -/
  result : Except Failure α

namespace Logged

variable {α β : Type}

instance : Monad Logged where
  pure a := ⟨[], .ok a⟩
  bind x f := match x.result with
    | .ok a => ⟨x.log ++ (f a).log, (f a).result⟩
    | .error e => ⟨x.log, .error e⟩

instance : MonadLift (Except Failure) Logged where
  monadLift x := ⟨[], x⟩

theorem bind_of_ok {x : Logged α} {a : α} (h : x.result = .ok a) (f : α → Logged β) :
    x >>= f = ⟨x.log ++ (f a).log, (f a).result⟩ := by
  change (match x.result with
    | .ok a => (⟨x.log ++ (f a).log, (f a).result⟩ : Logged β)
    | .error e => ⟨x.log, .error e⟩) = _
  rw [h]

theorem bind_of_error {x : Logged α} {e : Failure} (h : x.result = .error e) (f : α → Logged β) :
    x >>= f = ⟨x.log, .error e⟩ := by
  change (match x.result with
    | .ok a => (⟨x.log ++ (f a).log, (f a).result⟩ : Logged β)
    | .error e => ⟨x.log, .error e⟩) = _
  rw [h]

theorem result_bind (x : Logged α) (f : α → Logged β) :
    (x >>= f).result = x.result >>= fun a => (f a).result := by
  cases h : x.result with
  | ok a => rw [bind_of_ok h]; rfl
  | error e => rw [bind_of_error h]; rfl

theorem bind_assoc {γ : Type} (x : Logged α) (f : α → Logged β) (g : β → Logged γ) :
    x >>= f >>= g = x >>= fun a => f a >>= g := by
  cases hx : x.result with
  | error e => rw [bind_of_error hx, bind_of_error hx, bind_of_error rfl]
  | ok a =>
    rw [bind_of_ok hx, bind_of_ok hx]
    cases hf : (f a).result with
    | error e => rw [bind_of_error rfl, bind_of_error hf]
    | ok b => rw [bind_of_ok rfl, bind_of_ok hf, List.append_assoc]

theorem bind_pure_comp (x : Logged α) : (x >>= fun a => pure (id a)) = x := by
  obtain ⟨log, e | a⟩ := x
  · rfl
  · exact congrArg (Logged.mk · _) (List.append_nil log)

instance : LawfulMonad Logged :=
  LawfulMonad.mk' Logged bind_pure_comp (fun _ _ => rfl) bind_assoc

end Logged

namespace Context

/-- Looks a reference up and writes it down. -/
def lookLogged (c : Context) (e : Expression) : Logged Value := ⟨[e], c.look e⟩

/-- Resolves a value and writes the references down that are looked up. -/
def resolveLogged (c : Context) (v : Value) : Logged Value := resolveWith c.lookLogged v

/-- The references that resolving a value looks up, in order. -/
def lookedUp (c : Context) (v : Value) : List Expression := (c.resolveLogged v).log

theorem result_fillWith (c : Context) (ps : List Piece) :
    (fillWith c.lookLogged ps).result = fillWith c.look ps := by
  induction ps with
  | nil => rfl
  | cons p rest ih =>
    cases p with
    | literal cs =>
      rw [fillWith, fillWith, Logged.result_bind, ih]
      rfl
    | reference cs =>
      rw [fillWith, fillWith]
      simp only [Logged.result_bind, ih]
      rfl
    | unterminated cs => rfl

theorem result_substituteWith (c : Context) (text : String) :
    (substituteWith c.lookLogged text).result = substituteWith c.look text := by
  dsimp only [substituteWith]
  split
  · rw [Logged.result_bind]
    rfl
  · rw [Logged.result_bind, result_fillWith]
    rfl

mutual

theorem result_resolveWith (c : Context) :
    ∀ v, (resolveWith c.lookLogged v).result = resolveWith c.look v
  | .str s => by
    rw [resolveWith, resolveWith, ← result_substituteWith]
    split <;> rfl
  | .arr items => by
    rw [resolveWith, resolveWith, Logged.result_bind, result_resolveItemsWith c items]
    rfl
  | .obj fields => by
    rw [resolveWith, resolveWith, Logged.result_bind, result_resolveFieldsWith c fields]
    rfl
  | .null | .bool _ | .int _ | .float _ => by rw [resolveWith, resolveWith]; rfl

theorem result_resolveItemsWith (c : Context) :
    ∀ items, (resolveItemsWith c.lookLogged items).result = resolveItemsWith c.look items
  | [] => by rw [resolveItemsWith, resolveItemsWith]; rfl
  | v :: rest => by
    rw [resolveItemsWith, resolveItemsWith]
    simp only [Logged.result_bind, result_resolveWith c v, result_resolveItemsWith c rest]
    rfl

theorem result_resolveFieldsWith (c : Context) :
    ∀ fields, (resolveFieldsWith c.lookLogged fields).result = resolveFieldsWith c.look fields
  | [] => by rw [resolveFieldsWith, resolveFieldsWith]; rfl
  | (k, v) :: rest => by
    rw [resolveFieldsWith, resolveFieldsWith]
    simp only [Logged.result_bind, result_resolveWith c v, result_resolveFieldsWith c rest]
    rfl

end

/-- **Writing references down** changes nothing in what a value resolves to. -/
theorem result_resolveLogged (c : Context) (v : Value) : (c.resolveLogged v).result = c.resolve v :=
  (result_resolveWith c v).trans (resolveWith_look c v)

end Context

end Stepflow
