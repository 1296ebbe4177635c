import Stepflow.Workflow.Basic

/-!
# Registries

A registry knows the components that workflows call by name, in five namespaces: callables, agents,
generators, context builders and workflows. In each namespace a name stands for the component first
registered under it; a second registration is refused.

A strict registry refuses a name that it does not know. A lenient one records the failure and hands
out a stand-in, which fails when it is used. What the first four kinds of components are is left
open: it is the parameter `κ`.
-/

namespace Stepflow

/-- The namespaces of a registry. -/
inductive Namespace where
  /-- What steps call, what validations run and what compensates. -/
  | callables
  /-- What agent steps execute. -/
  | agents
  /-- What generate steps have text produced by. -/
  | generators
  /-- What makes contexts for agents and generators. -/
  | contextBuilders
  /-- What subworkflow steps run. -/
  | workflows
  deriving DecidableEq, Repr

namespace Namespace

/-- All namespaces. -/
def all : List Namespace := [.callables, .agents, .generators, .contextBuilders, .workflows]

/-- The name of a namespace. -/
def word : Namespace → String
  | .callables => "callables"
  | .agents => "agents"
  | .generators => "generators"
  | .contextBuilders => "context_builders"
  | .workflows => "workflows"

/-- The namespace of a name. -/
def ofWord? (word : String) : Option Namespace := all.find? fun n => n.word = word

/-- What one component of the namespace is called. -/
def singular : Namespace → String
  | .callables => "callable"
  | .agents => "agent"
  | .generators => "generator"
  | .contextBuilders => "context builder"
  | .workflows => "workflow"

end Namespace

/-- The ways in which a name can be refused. -/
inductive RegistryErrorKind where
  /-- It is already registered. -/
  | duplicate
  /-- It is not registered. -/
  | notFound
  /-- It is not registered, and the failure is put off until the component is used. -/
  | deferred
  deriving DecidableEq, Repr

/-- A name that a registry refuses. -/
structure RegistryError where
  /-- Why it is refused. -/
  kind : RegistryErrorKind
  /-- The namespace it was looked for in. -/
  space : Namespace
  /-- The name. -/
  name : String
  /-- Where a document refers to it. -/
  location : Option String := none
  deriving DecidableEq, Repr

/-- The wording of a refusal. -/
def RegistryError.message (e : RegistryError) : String :=
  let state := match e.kind with
    | .duplicate => "' is already registered"
    | .notFound => "' is not registered"
    | .deferred => "' is not registered (deferred)"
  let place := match e.location with
    | some l => " at " ++ l
    | none => ""
  e.space.singular ++ " '" ++ e.name ++ state ++ place

/-- The components that workflows can call. -/
structure Registry (κ : Type) where
  /-- The callables. -/
  callables : Table κ := []
  /-- The agents. -/
  agents : Table κ := []
  /-- The generators. -/
  generators : Table κ := []
  /-- The context builders. -/
  contextBuilders : Table κ := []
  /-- The workflows, each under its own name. -/
  workflows : Table Workflow := []
  /-- Whether unknown names are put off. -/
  lenient : Bool := false
  /-- The failures put off so far, the oldest first. -/
  deferred : List RegistryError := []

/-- What a registry answers to a name. -/
inductive Resolution (α : Type) where
  /-- The component of this name. -/
  | found (component : α)
  /-- A stand-in, with the failure that is put off. -/
  | standIn (e : RegistryError)
  /-- Nothing. -/
  | missing (e : RegistryError)

namespace Registry

variable {κ : Type}

/-- The names of a namespace, in order. -/
def names (r : Registry κ) : Namespace → List String
  | .callables => r.callables.names
  | .agents => r.agents.names
  | .generators => r.generators.names
  | .contextBuilders => r.contextBuilders.names
  | .workflows => r.workflows.names

/-- Whether a name is registered. -/
def has (r : Registry κ) (space : Namespace) (name : String) : Bool :=
  match space with
  | .callables => r.callables.contains name
  | .agents => r.agents.contains name
  | .generators => r.generators.contains name
  | .contextBuilders => r.contextBuilders.contains name
  | .workflows => r.workflows.contains name

/-- The component of a name in one of the first four namespaces. -/
def component? (r : Registry κ) (space : Namespace) (name : String) : Option κ :=
  match space with
  | .callables => r.callables.get? name
  | .agents => r.agents.get? name
  | .generators => r.generators.get? name
  | .contextBuilders => r.contextBuilders.get? name
  | .workflows => none

/-- Registers a component in one of the first four namespaces. -/
def register (r : Registry κ) (space : Namespace) (name : String) (c : κ) :
    Except RegistryError (Registry κ) :=
  if r.has space name then .error { kind := .duplicate, space, name }
  else match space with
    | .callables => .ok { r with callables := r.callables.insert name c }
    | .agents => .ok { r with agents := r.agents.insert name c }
    | .generators => .ok { r with generators := r.generators.insert name c }
    | .contextBuilders => .ok { r with contextBuilders := r.contextBuilders.insert name c }
    | .workflows => .ok r

/-- Registers a workflow under its own name. -/
def registerWorkflow (r : Registry κ) (w : Workflow) : Except RegistryError (Registry κ) :=
  if r.has .workflows w.name then .error { kind := .duplicate, space := .workflows, name := w.name }
  else .ok { r with workflows := r.workflows.insert w.name w }

/-- The kind of failure that an unknown name is. -/
def unknownKind (r : Registry κ) : RegistryErrorKind := if r.lenient then .deferred else .notFound

/-- What becomes of a lookup that found something or did not. -/
def resolveWith {α : Type} (r : Registry κ) (space : Namespace) (name : String) :
    Option α → Resolution α
  | some c => .found c
  | none =>
    let e : RegistryError := { kind := r.unknownKind, space, name }
    if r.lenient then .standIn e else .missing e

/-- Looks a name up in one of the first four namespaces. -/
def resolve (r : Registry κ) (space : Namespace) (name : String) : Resolution κ :=
  r.resolveWith space name (r.component? space name)

/-- Looks a workflow up. -/
def resolveWorkflow (r : Registry κ) (name : String) : Resolution Workflow :=
  r.resolveWith .workflows name (r.workflows.get? name)

/-- The workflow that stands in for an unknown one; it has no steps. -/
def placeholder (name : String) : Workflow :=
  { Workflow.empty name with description := "unresolved workflow placeholder" }

/-- Records a failure that is put off. -/
def defer (r : Registry κ) (e : RegistryError) : Registry κ :=
  { r with deferred := r.deferred ++ [e] }

/-- Looks a name up and records a failure that is put off. A stand-in is `none`. -/
def lookup (r : Registry κ) (space : Namespace) (name : String) :
    Except RegistryError (Option κ) × Registry κ :=
  match r.resolve space name with
  | .found c => (.ok (some c), r)
  | .standIn e => (.ok none, r.defer e)
  | .missing e => (.error e, r)

/-- Looks a workflow up and records a failure that is put off. -/
def lookupWorkflow (r : Registry κ) (name : String) : Except RegistryError Workflow × Registry κ :=
  match r.resolveWorkflow name with
  | .found w => (.ok w, r)
  | .standIn e => (.ok (placeholder name), r.defer e)
  | .missing e => (.error e, r)

/-- The failure that a reference to a name is, if it is one. -/
def referenceError? (r : Registry κ) (space : Namespace) (name location : String) :
    Option RegistryError :=
  if r.has space name then none
  else some { kind := r.unknownKind, space, name, location := some location }

/-- Checks a reference and records a failure that is put off. -/
def checkReference (r : Registry κ) (space : Namespace) (name location : String) :
    Except RegistryError Unit × Registry κ :=
  match r.referenceError? space name location with
  | none => (.ok (), r)
  | some e => if e.kind = .deferred then (.ok (), r.defer e) else (.error e, r)

/-- Takes out the failures that were put off. -/
def takeDeferred (r : Registry κ) : List RegistryError × Registry κ :=
  (r.deferred, { r with deferred := [] })

/-- What a stand-in says when it is used. -/
def standInMessage (space : Namespace) (name : String) : String :=
  space.singular ++ " '" ++ name ++ "' is not registered"

end Registry

end Stepflow
