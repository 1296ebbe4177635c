import Stepflow.Context
import Stepflow.Expression.Parser
import Stepflow.Json.Printer

/-!
# Looking references up

`Expression.evaluate` follows the path of a reference through a context. An input that is not given
is null whatever follows its name; everything else that is missing is an error that names the whole
path.

Text may hold references between other characters. `Embedded.cut` cuts it into pieces, and
`Context.substitute` puts the value of each reference in its place: texts as they are, other values
as JSON. A value put in is not looked at again. A text that is nothing but one reference has that
reference's value, whatever its kind. `Context.resolve` does this in every text of a value.
-/

namespace Stepflow

namespace Expression

/-- Follows a path into a value; `done` is the part of the whole path that led to it. -/
def walk (root : Root) (whole : List Segment) :
    (done : List Segment) → List Segment → Value → Except LookupError Value
  | _, [], v => .ok v
  | done, s :: rest, v =>
    match s.enter? v with
    | some w => walk root whole (done ++ [s]) rest w
    | none => .error ⟨dotted root whole, .notFound s (dotted root done)⟩

/-- The value that a reference names, before any negation. -/
def lookup (e : Expression) (c : Context) : Except LookupError Value :=
  match e.root with
  | .input =>
    match c.inputs.get? e.rootName with
    | none => .ok .null
    | some v => walk .input e.path (e.path.take 1) (e.path.drop 1) v
  | .config =>
    match c.config.get? e.rootName with
    | none => .error ⟨e.dottedPath, .configUnset e.rootName⟩
    | some v => walk .config e.path (e.path.take 1) (e.path.drop 1) v
  | .stepOutput =>
    match c.outputs.get? e.rootName with
    | none => .error ⟨e.dottedPath, .noOutput e.rootName⟩
    | some v => walk .stepOutput e.path (e.path.take 2) (e.path.drop 2) v

/-- **The value of a reference**: what it names, or the opposite of the truth of that. -/
def evaluate (e : Expression) (c : Context) : Except LookupError Value :=
  (e.lookup c).map fun v => if e.negated then .bool !v.truthy else v

/-- Whether the condition that a reference states holds. -/
def holds (e : Expression) (c : Context) : Except LookupError Bool :=
  (e.evaluate c).map Value.truthy

end Expression

/-! ### Text with references in it -/

namespace Embedded

open Text Expression

/-- A piece of a text. -/
inductive Piece where
  /-- Characters outside the markers. -/
  | literal (cs : List Char)
  /-- An opening marker up to the next closing one, both included. -/
  | reference (cs : List Char)
  /-- An opening marker without a closing one, and everything behind it. -/
  | unterminated (cs : List Char)
  deriving DecidableEq

/-- A text that begins with another one is as long as that and the rest. -/
theorem length_stripPrefix? {pre cs rest : List Char} (h : stripPrefix? pre cs = some rest) :
    rest.length + pre.length = cs.length := by
  induction pre generalizing cs with
  | nil => simp_all [stripPrefix?]
  | cons p ps ih =>
    cases cs with
    | nil => simp [stripPrefix?] at h
    | cons c cs =>
      by_cases hc : p = c
      · simp only [stripPrefix?, if_pos hc] at h
        have := ih h
        simp only [List.length_cons]; omega
      · simp [stripPrefix?, hc] at h

/-- A text that is cut at a marker loses nothing but the marker. -/
theorem length_cutAt? {marker cs before after : List Char}
    (h : cutAt? marker cs = some (before, after)) :
    before.length + marker.length + after.length = cs.length := by
  induction cs generalizing before with
  | nil =>
    simp only [cutAt?, Option.map_eq_some_iff, Prod.mk.injEq] at h
    obtain ⟨r, hr, rfl, rfl⟩ := h
    have := length_stripPrefix? hr
    simp_all
  | cons c cs ih =>
    simp only [cutAt?] at h
    split at h
    · next r hr =>
      have := length_stripPrefix? hr
      simp only [Option.some.injEq, Prod.mk.injEq] at h
      obtain ⟨rfl, rfl⟩ := h
      simp only [List.length_nil, List.length_cons] at this ⊢; omega
    · simp only [Option.map_eq_some_iff, Prod.mk.injEq] at h
      obtain ⟨⟨b, a⟩, hba, rfl, rfl⟩ := h
      have := ih hba
      simp only [List.length_cons] at this ⊢; omega

/-- Cuts a text at every opening marker and at the closing marker next behind it. -/
def cut (cs : List Char) : List Piece :=
  match h : cutAt? opening cs with
  | none => [.literal cs]
  | some (before, after) =>
    match h' : cutAt? closing after with
    | none => [.literal before, .unterminated (opening ++ after)]
    | some (inner, rest) =>
      have : rest.length < cs.length := by
        have h₁ := length_cutAt? h
        have h₂ := length_cutAt? h'
        simp only [opening, closing, List.length_cons, List.length_nil] at h₁ h₂
        omega
      .literal before :: .reference (opening ++ inner ++ closing) :: cut rest
termination_by cs.length

/-- Reads the references among the pieces, up to the first that is not one. -/
def references : List Piece → Except SyntaxError (List Expression)
  | [] => .ok []
  | .literal _ :: rest => references rest
  | .reference cs :: rest => do
    let e ← parse (String.ofList cs)
    let es ← references rest
    return e :: es
  | .unterminated cs :: _ => .error ⟨String.ofList cs, .unterminated⟩

/-- The references in a text. -/
def extract (text : String) : Except SyntaxError (List Expression) :=
  references (cut text.toList)

/-- Whether an opening marker occurs in a text. -/
def occursIn (text : String) : Bool := hasMarker opening text.toList

/-- Whether a text without blanks at its ends is enclosed in the markers and has no other opening
marker. -/
def isSingle (cs : List Char) : Bool :=
  match stripPrefix? opening cs with
  | none => false
  | some rest => (stripSuffix? closing cs).isSome && !hasMarker opening rest

end Embedded

/-- The characters that stand for a value inside a text. -/
def Value.inText : Value → String
  | .str s => s
  | v => v.compact

namespace Context

open Text Embedded

/-- Puts the values of the references in their places. -/
def fill (c : Context) : List Piece → Except Expression.Failure String
  | [] => .ok ""
  | .literal cs :: rest => do
    let after ← c.fill rest
    return String.ofList cs ++ after
  | .reference cs :: rest => do
    let e ← (Expression.parse (String.ofList cs)).mapError .unreadable
    let v ← (e.evaluate c).mapError .unresolved
    let after ← c.fill rest
    return v.inText ++ after
  | .unterminated cs :: _ => .error (.unreadable ⟨String.ofList cs, .unterminated⟩)

/-- **Substitution**: the value of a text that may hold references. -/
def substitute (c : Context) (text : String) : Except Expression.Failure Value :=
  let trimmed := trim text.toList
  if isSingle trimmed then do
    let e ← (Expression.parse (String.ofList trimmed)).mapError .unreadable
    (e.evaluate c).mapError .unresolved
  else (c.fill (cut text.toList)).map .str

mutual

/-- Substitutes in every text of a value that holds an opening marker; names and everything else stay
as they are. -/
def resolve (c : Context) : Value → Except Expression.Failure Value
  | .str s => if occursIn s then c.substitute s else .ok (.str s)
  | .arr items => (resolveItems c items).map .arr
  | .obj fields => (resolveFields c fields).map .obj
  | .null => .ok .null
  | .bool b => .ok (.bool b)
  | .int n => .ok (.int n)
  | .float x => .ok (.float x)

/-- Resolves the members of a list from left to right. -/
def resolveItems (c : Context) : List Value → Except Expression.Failure (List Value)
  | [] => .ok []
  | v :: rest => do
    let w ← resolve c v
    let ws ← resolveItems c rest
    return w :: ws

/-- Resolves named values in order. -/
def resolveFields (c : Context) :
    List (String × Value) → Except Expression.Failure (List (String × Value))
  | [] => .ok []
  | (k, v) :: rest => do
    let w ← resolve c v
    let ws ← resolveFields c rest
    return (k, w) :: ws

end

end Context

end Stepflow
