import Mathlib.Logic.Relation
import Stepflow.Diagram.Flowchart
import Stepflow.Proofs.Step.Nesting

/-!
# The nodes and the paths of a flowchart

A chart is a list of statements; `nodes` are those that are declared in it, `edges` the ends of those that
are drawn. The chart of a step declares one node for each step in it, in document order, numbered from the
number that it is given to the first one that is left free (`declares_step`).

A piece of a chart is gone through from its entry to its exits: everything in it can be reached from the
entry, and from everything in it an exit can be reached (`Through`). Pieces that hang below a node
(`Hangs`) are reached from that node, and are left at their exits or lead back to it, as the fix of a
validation does. Both are kept by every way of putting charts together, so the chart of a step is gone
through wherever each branch in the step has options and each group members (`through_step`); and so is
the chart of steps one behind another (`through_sequence`).
-/

namespace Stepflow.Flowchart

variable {chart after : List Statement} {a b c entry target id mid next : Node} {exits exits' : List Node}
  {ns ms : List Node} {s : Step} {ss ts : List Step}

/-! ## What a chart declares and draws -/

/-- The node that a statement declares, with its shape and its caption. -/
def Statement.declared? : Statement → Option (Node × Shape × String)
  | .node id shape caption => some (id, shape, caption)
  | .edge .. => none

/-- The ends of the edge that a statement draws. -/
def Statement.drawn? : Statement → Option (Node × Node)
  | .node .. => none
  | .edge source target _ _ => some (source, target)

/-- The nodes of a chart, in the order in which they are declared. -/
def nodes (chart : List Statement) : List (Node × Shape × String) := chart.filterMap Statement.declared?

/-- The edges of a chart. -/
def edges (chart : List Statement) : List (Node × Node) := chart.filterMap Statement.drawn?

/-- The numbers of the nodes of a chart. -/
def ids (chart : List Statement) : List Node := (nodes chart).map Prod.fst

@[simp] theorem nodes_nil : nodes [] = [] := rfl

@[simp] theorem nodes_cons_node (shape : Shape) (caption : String) :
    nodes (.node id shape caption :: chart) = (id, shape, caption) :: nodes chart := rfl

@[simp] theorem nodes_cons_edge (source target : Node) (label : Option String) (dotted : Bool) :
    nodes (.edge source target label dotted :: chart) = nodes chart := rfl

@[simp] theorem nodes_append : nodes (chart ++ after) = nodes chart ++ nodes after :=
  List.filterMap_append

@[simp] theorem nodes_map_edge (sources : List Node) (target : Node) (label : Option String) (dotted : Bool) :
    nodes (sources.map fun e => .edge e target label dotted) = [] := by
  rw [nodes, List.filterMap_map, List.filterMap_eq_nil_iff]
  exact fun _ _ => rfl

@[simp] theorem edges_nil : edges [] = [] := rfl

@[simp] theorem edges_cons_node (shape : Shape) (caption : String) :
    edges (.node id shape caption :: chart) = edges chart := rfl

@[simp] theorem edges_cons_edge (source target : Node) (label : Option String) (dotted : Bool) :
    edges (.edge source target label dotted :: chart) = (source, target) :: edges chart := rfl

@[simp] theorem edges_append : edges (chart ++ after) = edges chart ++ edges after :=
  List.filterMap_append

@[simp] theorem edges_map_edge (sources : List Node) (target : Node) (label : Option String) (dotted : Bool) :
    edges (sources.map fun e => .edge e target label dotted) = sources.map fun e => (e, target) := by
  rw [edges, List.filterMap_map, ← List.filterMap_eq_map]
  rfl

@[simp] theorem ids_nil : ids [] = [] := rfl

@[simp] theorem ids_cons_node (shape : Shape) (caption : String) :
    ids (.node id shape caption :: chart) = id :: ids chart := rfl

@[simp] theorem ids_cons_edge (source target : Node) (label : Option String) (dotted : Bool) :
    ids (.edge source target label dotted :: chart) = ids chart := rfl

@[simp] theorem ids_append : ids (chart ++ after) = ids chart ++ ids after := by
  rw [ids, nodes_append, List.map_append]
  rfl

@[simp] theorem ids_map_edge (sources : List Node) (target : Node) (label : Option String) (dotted : Bool) :
    ids (sources.map fun e => .edge e target label dotted) = [] := by
  rw [ids, nodes_map_edge, List.map_nil]

/-! ## One node for each step -/

/-- The nodes of steps that are numbered from a number on. -/
def numbered (id : Node) (ss : List Step) : List (Node × Shape × String) :=
  (ss.zipIdx id).map fun (s, n) => (n, shapeOf s.kind, caption s)

theorem numbered_append (id : Node) (ss ts : List Step) :
    numbered id (ss ++ ts) = numbered id ss ++ numbered (id + ss.length) ts := by
  rw [numbered, List.zipIdx_append, List.map_append]
  rfl

/-- Their numbers. -/
theorem map_fst_numbered (id : Node) (ss : List Step) :
    (numbered id ss).map Prod.fst = List.range' id ss.length := by
  rw [numbered, List.map_map]
  exact List.zipIdx_map_snd id ss

/-- **A chart declares steps**: it has their nodes, numbered from `id` on, and `next` is the first number
that is left free. -/
structure Declares (chart : List Statement) (id next : Node) (ss : List Step) : Prop where
  /-- The nodes. -/
  nodes : nodes chart = numbered id ss
  /-- The first free number. -/
  next : next = id + ss.length

theorem Declares.nil : Declares [] id id [] := ⟨rfl, rfl⟩

/-- Two charts, the second of which goes on where the first ends. -/
theorem Declares.append (h : Declares chart id mid ss) (h' : Declares after mid next ts) :
    Declares (chart ++ after) id next (ss ++ ts) where
  nodes := by rw [nodes_append, numbered_append, h.nodes, h'.nodes, h.next]
  next := by rw [h'.next, h.next, List.length_append, Nat.add_assoc]

/-- Edges change nothing. -/
theorem Declares.of_nodes (h : Declares chart id next ss)
    (hsame : Flowchart.nodes after = Flowchart.nodes chart) : Declares after id next ss := ⟨hsame.trans h.nodes, h.next⟩

/-- What is said of the chart of a step, wherever it stands. -/
def StepDeclares (s : Step) : Prop :=
  ∀ id, Declares (step id s).statements id (step id s).next s.subtree

theorem declares_options {os : List (BranchOption Step)} (h : ∀ o ∈ os, StepDeclares o.step)
    (id next : Node) :
    Declares (options id next os).statements next (options id next os).next
      ((os.map BranchOption.step).flatMap Step.subtree) := by
  induction os generalizing next with
  | nil =>
    rw [options]
    exact .nil
  | cons o rest ih =>
    obtain ⟨condition, s⟩ := o
    rw [options]
    have hfirst := h _ List.mem_cons_self next
    have hrest := ih (fun o ho => h o (List.mem_cons_of_mem _ ho)) (step next s).next
    exact (hfirst.append hrest).of_nodes (by simp [hang])

theorem declares_members (h : ∀ s ∈ ss, StepDeclares s) (id next : Node) :
    Declares (members id next ss).statements next (members id next ss).next (ss.flatMap Step.subtree) := by
  induction ss generalizing next with
  | nil =>
    rw [members]
    exact .nil
  | cons s rest ih =>
    rw [members]
    have hfirst := h _ List.mem_cons_self next
    have hrest := ih (fun s hs => h s (List.mem_cons_of_mem _ hs)) (step next s).next
    exact (hfirst.append hrest).of_nodes (by simp [hang])

theorem declares_fixOf {fix : Option Step} (h : ∀ s ∈ fix, StepDeclares s) (id next : Node) :
    Declares (fixOf id next fix).statements next (fixOf id next fix).next
      (fix.toList.flatMap Step.subtree) := by
  cases fix with
  | none =>
    rw [fixOf]
    exact .nil
  | some s =>
    rw [fixOf, Option.toList_some, List.flatMap_singleton]
    exact (h s rfl next).of_nodes (by simp)

theorem declares_fallbackOf {fallback : Option Step} (h : ∀ s ∈ fallback, StepDeclares s) (id next : Node) :
    Declares (fallbackOf id next fallback).statements next (fallbackOf id next fallback).next
      (fallback.toList.flatMap Step.subtree) := by
  cases fallback with
  | none =>
    rw [fallbackOf]
    exact .nil
  | some s =>
    rw [fallbackOf, Option.toList_some, List.flatMap_singleton]
    exact (h s rfl next).of_nodes (by simp)

theorem declares_inner {kind : StepKind Step} (h : ∀ s ∈ kind.inner, StepDeclares s) (id next : Node) :
    Declares (inner id next kind).statements next (inner id next kind).next
      (kind.inner.flatMap Step.subtree) := by
  cases kind with
  | validate stages retry fix =>
    rw [inner]
    exact declares_fixOf (fun s hs => h s (Option.mem_toList.2 hs)) id next
  | branch os =>
    rw [inner]
    exact declares_options (fun o ho => h o.step (List.mem_map_of_mem ho)) id next
  | parallel steps =>
    rw [inner]
    exact declares_members h id next
  | _ =>
    rw [inner]
    exact .nil

/-- **The chart of a step has one node for each step in it**, in document order. -/
theorem declares_step (s : Step) : StepDeclares s := by
  induction s using Step.induction with
  | h s ih =>
    intro id
    obtain ⟨name, kind, condition, retryPolicy, onError, skipOnError, rollback, checkpoint⟩ := s
    have hinner := declares_inner (fun s hs => ih s (List.mem_append_left _ hs)) id (id + 1)
    have hfallback := declares_fallbackOf
      (fun s hs => ih s (List.mem_append_right _ (Option.mem_toList.2 hs))) id (inner id (id + 1) kind).next
    have hbelow := hinner.append hfallback
    rw [← List.flatMap_append] at hbelow
    rw [Step.subtree_eq, step]
    constructor
    · rw [nodes_cons_node, hbelow.nodes]
      rfl
    · rw [hbelow.next, List.length_cons]
      exact Nat.add_right_comm id 1 _

/-- **The chart of steps one behind another** has one node for each step in them. -/
theorem declares_sequence (entries : List Node) (next : Node) (ss : List Step) :
    Declares (sequence entries next ss).statements next (sequence entries next ss).next
      (ss.flatMap Step.subtree) := by
  induction ss generalizing entries next with
  | nil => exact .nil
  | cons s rest ih =>
    have hfirst := declares_step s next
    have hrest := ih (step next s).exits (step next s).next
    exact (hfirst.append hrest).of_nodes (by simp [sequence, join])

/-! ## Paths -/

/-- **One node leads to another** along the edges of a chart. -/
def Leads (chart : List Statement) : Node → Node → Prop :=
  Relation.ReflTransGen fun a b => (a, b) ∈ edges chart

theorem Leads.refl : Leads chart a a := Relation.ReflTransGen.refl

theorem Leads.of_edge (h : (a, b) ∈ edges chart) : Leads chart a b := Relation.ReflTransGen.single h

theorem Leads.trans (h : Leads chart a b) (h' : Leads chart b c) : Leads chart a c :=
  Relation.ReflTransGen.trans h h'

/-- What is added to a chart takes no path away. -/
theorem Leads.append_left (h : Leads chart a b) (after : List Statement) : Leads (chart ++ after) a b := by
  refine Relation.ReflTransGen.mono (fun _ _ he => ?_) a b h
  rw [edges_append]
  exact List.mem_append_left _ he

theorem Leads.append_right (h : Leads after a b) (chart : List Statement) : Leads (chart ++ after) a b := by
  refine Relation.ReflTransGen.mono (fun _ _ he => ?_) a b h
  rw [edges_append]
  exact List.mem_append_right _ he

/-- Along edges from some nodes to one. -/
theorem leads_map_edge {e : Node} (he : e ∈ exits) (target : Node) (label : Option String) (dotted : Bool) :
    Leads (exits.map fun e => .edge e target label dotted) e target := by
  refine .of_edge ?_
  rw [edges_map_edge]
  exact List.mem_map.2 ⟨e, he, rfl⟩

/-- The edges of a chart join nodes among some. -/
def Joins (chart : List Statement) (among : List Node) : Prop :=
  ∀ a b, (a, b) ∈ edges chart → a ∈ among ∧ b ∈ among

theorem Joins.mono (h : Joins chart ns) (hsub : ns ⊆ ms) : Joins chart ms :=
  fun a b hab => (h a b hab).imp (fun ha => hsub ha) fun hb => hsub hb

theorem Joins.append (h : Joins chart ns) (h' : Joins after ns) : Joins (chart ++ after) ns := by
  intro a b hab
  rw [edges_append] at hab
  exact (List.mem_append.1 hab).elim (h a b) (h' a b)

theorem joins_edge (ha : a ∈ ns) (hb : b ∈ ns) (label : Option String) (dotted : Bool) :
    Joins [.edge a b label dotted] ns := by
  intro a' b' hab
  obtain ⟨rfl, rfl⟩ := Prod.mk.inj (List.mem_singleton.1 hab)
  exact ⟨ha, hb⟩

theorem joins_map_edge (h : ∀ e ∈ exits, e ∈ ns) (htarget : target ∈ ns) (label : Option String)
    (dotted : Bool) : Joins (exits.map fun e => .edge e target label dotted) ns := by
  intro a b hab
  rw [edges_map_edge] at hab
  obtain ⟨e, he, heq⟩ := List.mem_map.1 hab
  obtain ⟨rfl, rfl⟩ := Prod.mk.inj heq
  exact ⟨h e he, htarget⟩

/-- **A piece is gone through** from its entry to its exits. -/
structure Through (chart : List Statement) (entry : Node) (exits : List Node) : Prop where
  /-- Its edges join nodes of it. -/
  closed : Joins chart (ids chart)
  /-- The entry is a node of it. -/
  entered : entry ∈ ids chart
  /-- The exits are nodes of it. -/
  within : ∀ e ∈ exits, e ∈ ids chart
  /-- There is an exit. -/
  ends : exits ≠ []
  /-- Every node is reached from the entry. -/
  reached : ∀ n ∈ ids chart, Leads chart entry n
  /-- From every node an exit is reached. -/
  left : ∀ n ∈ ids chart, ∃ e ∈ exits, Leads chart n e

/-- **Pieces hang below a node**: they are entered from it, and left at the exits or back to the node. -/
structure Hangs (id : Node) (chart : List Statement) (exits : List Node) : Prop where
  /-- Their edges join their nodes and the one above. -/
  closed : Joins chart (id :: ids chart)
  /-- The exits are nodes of them. -/
  within : ∀ e ∈ exits, e ∈ ids chart
  /-- Every node is reached from the one above. -/
  reached : ∀ n ∈ ids chart, Leads chart id n
  /-- From every node an exit is reached, or the one above. -/
  left : ∀ n ∈ ids chart, Leads chart n id ∨ ∃ e ∈ exits, Leads chart n e

/-! ## Putting charts together -/

/-- One node is gone through. -/
theorem through_node (id : Node) (shape : Shape) (caption : String) :
    Through [.node id shape caption] id [id] where
  closed := nofun
  entered := List.mem_singleton_self id
  within := fun _ he => he
  ends := List.cons_ne_nil _ _
  reached := List.forall_mem_singleton.2 .refl
  left := List.forall_mem_singleton.2 ⟨id, List.mem_singleton_self id, .refl⟩

/-- **Two pieces one behind another**: every exit of the first leads to the entry of the second. -/
theorem Through.andThen (h : Through chart entry exits) (h' : Through after target exits') :
    Through (chart ++ (after ++ join exits target)) entry exits' := by
  have hids : ids (chart ++ (after ++ join exits target)) = ids chart ++ ids after := by simp [join]
  have hfirst {a b : Node} (hab : Leads chart a b) : Leads (chart ++ (after ++ join exits target)) a b :=
    hab.append_left _
  have hsecond {a b : Node} (hab : Leads after a b) : Leads (chart ++ (after ++ join exits target)) a b :=
    (hab.append_left _).append_right _
  have hacross {e : Node} (he : e ∈ exits) : Leads (chart ++ (after ++ join exits target)) e target :=
    ((leads_map_edge he target none false).append_right _).append_right _
  constructor
  · rw [hids]
    refine (h.closed.mono (List.subset_append_left _ _)).append
      ((h'.closed.mono (List.subset_append_right _ _)).append (joins_map_edge ?_ ?_ none false))
    · exact fun e he => List.mem_append_left _ (h.within e he)
    · exact List.mem_append_right _ h'.entered
  · rw [hids]
    exact List.mem_append_left _ h.entered
  · rw [hids]
    exact fun e he => List.mem_append_right _ (h'.within e he)
  · exact h'.ends
  · obtain ⟨e, he⟩ := List.exists_mem_of_ne_nil _ h.ends
    have htarget := (hfirst (h.reached e (h.within e he))).trans (hacross he)
    rw [hids, List.forall_mem_append]
    exact ⟨fun n hn => hfirst (h.reached n hn), fun n hn => htarget.trans (hsecond (h'.reached n hn))⟩
  · obtain ⟨e', he', hout⟩ := h'.left target h'.entered
    rw [hids, List.forall_mem_append]
    constructor
    · intro n hn
      obtain ⟨e, he, hne⟩ := h.left n hn
      exact ⟨e', he', ((hfirst hne).trans (hacross he)).trans (hsecond hout)⟩
    · intro n hn
      obtain ⟨e, he, hne⟩ := h'.left n hn
      exact ⟨e, he, hsecond hne⟩

theorem Hangs.nil : Hangs id [] [] := ⟨nofun, nofun, nofun, nofun⟩

/-- Pieces below a node stand side by side. -/
theorem Hangs.append (h : Hangs id chart exits) (h' : Hangs id after exits') :
    Hangs id (chart ++ after) (exits ++ exits') := by
  constructor
  · rw [ids_append]
    exact (h.closed.mono (List.cons_subset_cons _ (List.subset_append_left _ _))).append
      (h'.closed.mono (List.cons_subset_cons _ (List.subset_append_right _ _)))
  · rw [ids_append]
    exact fun e he => List.mem_append.2 ((List.mem_append.1 he).imp (h.within e) (h'.within e))
  · rw [ids_append, List.forall_mem_append]
    exact ⟨fun n hn => (h.reached n hn).append_left _, fun n hn => (h'.reached n hn).append_right _⟩
  · rw [ids_append, List.forall_mem_append]
    constructor
    · intro n hn
      obtain hup | ⟨e, he, hne⟩ := h.left n hn
      · exact .inl (hup.append_left _)
      · exact .inr ⟨e, List.mem_append_left _ he, hne.append_left _⟩
    · intro n hn
      obtain hup | ⟨e, he, hne⟩ := h'.left n hn
      · exact .inl (hup.append_right _)
      · exact .inr ⟨e, List.mem_append_right _ he, hne.append_right _⟩

/-- **A piece behind an edge** hangs below the node from which the edge comes. -/
theorem Through.hangs (h : Through chart entry exits) (id : Node) (label : Option String) (dotted : Bool) :
    Hangs id (chart ++ [.edge id entry label dotted]) exits := by
  have hids : ids (chart ++ [.edge id entry label dotted]) = ids chart := by simp
  have hdown : Leads (chart ++ [.edge id entry label dotted]) id entry :=
    (Leads.of_edge List.mem_cons_self).append_right _
  constructor
  · rw [hids]
    exact (h.closed.mono (List.subset_cons_self _ _)).append
      (joins_edge List.mem_cons_self (List.mem_cons_of_mem _ h.entered) label dotted)
  · rw [hids]
    exact h.within
  · rw [hids]
    exact fun n hn => hdown.trans ((h.reached n hn).append_left _)
  · rw [hids]
    intro n hn
    obtain ⟨e, he, hne⟩ := h.left n hn
    exact .inr ⟨e, he, hne.append_left _⟩

/-- **Edges from the exits back** to the node above take the place of the exits. -/
theorem Hangs.back (h : Hangs id chart exits) (label : Option String) (dotted : Bool) :
    Hangs id (chart ++ exits.map fun e => .edge e id label dotted) [] := by
  have hids : ids (chart ++ exits.map fun e => .edge e id label dotted) = ids chart := by simp
  constructor
  · rw [hids]
    exact h.closed.append
      (joins_map_edge (fun e he => List.mem_cons_of_mem _ (h.within e he)) List.mem_cons_self label dotted)
  · exact nofun
  · rw [hids]
    exact fun n hn => (h.reached n hn).append_left _
  · rw [hids]
    intro n hn
    obtain hup | ⟨e, he, hne⟩ := h.left n hn
    · exact .inl (hup.append_left _)
    · exact .inl ((hne.append_left _).trans ((leads_map_edge he id label dotted).append_right _))

/-- **A node with what hangs below it** is gone through, if it is left where the pieces are left, or at the
node itself, and there is such an exit. -/
theorem Hangs.through (h : Hangs id chart exits) (shape : Shape) (caption : String) (itself : Bool)
    (hends : itself = false → exits ≠ []) :
    Through (.node id shape caption :: chart) id ((if itself then [id] else []) ++ exits) := by
  have hinside {a b : Node} (hab : Leads chart a b) : Leads (.node id shape caption :: chart) a b :=
    hab.append_right [.node id shape caption]
  have hreached : ∀ n ∈ id :: ids chart, Leads (.node id shape caption :: chart) id n :=
    List.forall_mem_cons.2 ⟨.refl, fun n hn => hinside (h.reached n hn)⟩
  -- the node above leads to an exit
  have hdown : ∃ e ∈ (if itself then [id] else []) ++ exits,
      Leads (.node id shape caption :: chart) id e := by
    cases itself with
    | true => exact ⟨id, List.mem_cons_self, .refl⟩
    | false =>
      obtain ⟨e, he⟩ := List.exists_mem_of_ne_nil _ (hends rfl)
      exact ⟨e, List.mem_append_right _ he, hinside (h.reached e (h.within e he))⟩
  have hexits : ∀ e ∈ (if itself then [id] else []) ++ exits, e ∈ id :: ids chart := by
    refine List.forall_mem_append.2 ⟨fun e he => ?_, fun e he => List.mem_cons_of_mem _ (h.within e he)⟩
    cases itself with
    | true => exact List.mem_singleton.1 he ▸ List.mem_cons_self
    | false => contradiction
  obtain ⟨e, he, hide⟩ := hdown
  refine
    { closed := h.closed
      entered := List.mem_cons_self
      within := hexits
      ends := List.ne_nil_of_mem he
      reached := hreached
      left := List.forall_mem_cons.2 ⟨⟨e, he, hide⟩, fun n hn => ?_⟩ }
  obtain hup | ⟨e', he', hne⟩ := h.left n hn
  · exact ⟨e, he, (hinside hup).trans hide⟩
  · exact ⟨e', List.mem_append_right _ he', hinside hne⟩

/-! ## The charts of steps -/

/-- A step that is left from the steps inside it has some. -/
def Filled (s : Step) : Prop := leavesItself s.kind = false → s.kind.inner ≠ []

/-- What is said of the chart of a step, wherever it stands. -/
def StepThrough (s : Step) : Prop :=
  ∀ id, Through (step id s).statements (step id s).entry (step id s).exits

theorem hangs_options {os : List (BranchOption Step)} (h : ∀ o ∈ os, StepThrough o.step)
    (id next : Node) :
    Hangs id (options id next os).statements (options id next os).exits := by
  induction os generalizing next with
  | nil =>
    rw [options]
    exact .nil
  | cons o rest ih =>
    obtain ⟨condition, s⟩ := o
    rw [options]
    have hfirst := (h _ List.mem_cons_self next).hangs id (some condition.raw) false
    have hboth := hfirst.append (ih (fun o ho => h o (List.mem_cons_of_mem _ ho)) (step next s).next)
    rw [List.append_assoc] at hboth
    exact hboth

theorem hangs_members (h : ∀ s ∈ ss, StepThrough s) (id next : Node) :
    Hangs id (members id next ss).statements (members id next ss).exits := by
  induction ss generalizing next with
  | nil =>
    rw [members]
    exact .nil
  | cons s rest ih =>
    rw [members]
    have hfirst := (h _ List.mem_cons_self next).hangs id none false
    have hboth := hfirst.append (ih (fun s hs => h s (List.mem_cons_of_mem _ hs)) (step next s).next)
    rw [List.append_assoc] at hboth
    exact hboth

theorem hangs_fixOf {fix : Option Step} (h : ∀ s ∈ fix, StepThrough s) (id next : Node) :
    Hangs id (fixOf id next fix).statements (fixOf id next fix).exits := by
  cases fix with
  | none =>
    rw [fixOf]
    exact .nil
  | some s =>
    rw [fixOf]
    have hfix := (h s rfl next).hangs id (some "fail") true
    have hback := hfix.back (some "re-validate") true
    rw [List.append_assoc] at hback
    exact hback

theorem hangs_fallbackOf {fallback : Option Step} (h : ∀ s ∈ fallback, StepThrough s) (id next : Node) :
    Hangs id (fallbackOf id next fallback).statements (fallbackOf id next fallback).exits := by
  cases fallback with
  | none =>
    rw [fallbackOf]
    exact .nil
  | some s =>
    rw [fallbackOf]
    exact (h s rfl next).hangs id (some "error") true

theorem hangs_inner {kind : StepKind Step} (h : ∀ s ∈ kind.inner, StepThrough s) (id next : Node) :
    Hangs id (inner id next kind).statements (inner id next kind).exits := by
  cases kind with
  | validate stages retry fix =>
    rw [inner]
    exact hangs_fixOf (fun s hs => h s (Option.mem_toList.2 hs)) id next
  | branch os =>
    rw [inner]
    exact hangs_options (fun o ho => h o.step (List.mem_map_of_mem ho)) id next
  | parallel steps =>
    rw [inner]
    exact hangs_members h id next
  | _ =>
    rw [inner]
    exact .nil

/-- What hangs below a step that is left from its own node has no exits. -/
theorem exits_inner_eq_nil {kind : StepKind Step} (h : leavesItself kind = true) :
    (inner id next kind).exits = [] := by
  cases kind with
  | validate stages retry fix =>
    rw [inner]
    cases fix <;> rw [fixOf]
  | branch os => contradiction
  | parallel steps => contradiction
  | _ => rw [inner]

/-- What hangs below a step that is left from the steps inside it has exits, if there are such steps. -/
theorem exits_inner_ne_nil {kind : StepKind Step} (h : ∀ s ∈ kind.inner, StepThrough s)
    (hleaves : leavesItself kind = false) (hne : kind.inner ≠ []) : (inner id next kind).exits ≠ [] := by
  cases kind with
  | branch os =>
    obtain _ | ⟨⟨condition, s⟩, rest⟩ := os
    · contradiction
    · rw [inner, options]
      exact List.append_ne_nil_of_left_ne_nil (h s List.mem_cons_self next).ends _
  | parallel steps =>
    obtain _ | ⟨s, rest⟩ := steps
    · contradiction
    · rw [inner, members]
      exact List.append_ne_nil_of_left_ne_nil (h s List.mem_cons_self next).ends _
  | _ => contradiction

/-- **The chart of a step is gone through**, from its node to its exits. -/
theorem through_step (h : ∀ t ∈ s.subtree, Filled t) : StepThrough s := by
  induction s using Step.induction with
  | h s ih =>
    intro id
    have hnested : ∀ i ∈ s.nested, StepThrough i := fun i hi =>
      ih i hi fun t ht => h t (Step.subtree_subset hi ht)
    have hfilled := h s s.mem_subtree_self
    obtain ⟨name, kind, condition, retryPolicy, onError, skipOnError, rollback, checkpoint⟩ := s
    have hkind : ∀ i ∈ kind.inner, StepThrough i := fun i hi => hnested i (List.mem_append_left _ hi)
    have hinner := hangs_inner hkind id (id + 1)
    have hfallback := hangs_fallbackOf
      (fun i hi => hnested i (List.mem_append_right _ (Option.mem_toList.2 hi))) id
      (inner id (id + 1) kind).next
    have hthrough := (hinner.append hfallback).through (shapeOf kind)
      (caption ⟨name, kind, condition, retryPolicy, onError, skipOnError, rollback, checkpoint⟩)
      (leavesItself kind) fun hleaves =>
        List.append_ne_nil_of_left_ne_nil (exits_inner_ne_nil hkind hleaves (hfilled hleaves)) _
    rw [step]
    cases hleaves : leavesItself kind with
    | true =>
      -- below a step that is left from its own node, only the fallback has exits
      rw [hleaves, exits_inner_eq_nil hleaves] at hthrough
      exact hthrough
    | false =>
      rw [hleaves] at hthrough
      exact hthrough

/-- **Steps behind a piece** are gone through with it. -/
theorem through_sequence (h : Through chart entry exits) (hss : ∀ t ∈ ss.flatMap Step.subtree, Filled t)
    (next : Node) :
    Through (chart ++ (sequence exits next ss).statements) entry (sequence exits next ss).exits := by
  induction ss generalizing chart exits next with
  | nil =>
    rw [sequence, List.append_nil]
    exact h
  | cons s rest ih =>
    rw [List.flatMap_cons, List.forall_mem_append] at hss
    have hfirst := h.andThen (through_step hss.1 next)
    have hrest := ih hfirst hss.2 (step next s).next
    rw [List.append_assoc] at hrest
    exact hrest

end Stepflow.Flowchart
