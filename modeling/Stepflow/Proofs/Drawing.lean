import Stepflow.Proofs.Diagram.Paths
import Stepflow.Proofs.Validation.Written
import Stepflow.Proofs.Workflow.Places
import Stepflow.Step.Builder

/-!
# The flowchart of a workflow

In a valid workflow each branch has options and each group members, so its flowchart is gone through from
the start to the end (`through_flowchart`). It has a node for each step, a start and an end, and their names
are told apart by their numbers (`nodeName_injective`). What steps and conditions are called stands in
quotes that it cannot end. So the nodes and edges can be read back from what stands outside of them
(`readChart?_mermaid`), and no caption adds any.
-/

namespace Stepflow

namespace Flowchart

variable {cs rest : List Char}

/-! ## The text of a chart -/

/-- What stands outside of the quotes of a text; `quoted` tells whether it begins inside of them. -/
def outside : Bool → List Char → List Char
  | _, [] => []
  | quoted, c :: cs =>
    if c = '"' then outside (!quoted) cs else if quoted then outside quoted cs else c :: outside quoted cs

/-- The text of a statement without its caption. -/
def Statement.frame : Statement → String
  | .node id shape _ => "    " ++ nodeName id ++ shape.brackets.1 ++ shape.brackets.2
  | .edge source target label dotted =>
    "    " ++ nodeName source ++ (if dotted then " -.->" else " -->") ++
      (label.map fun _ => "||").getD "" ++ " " ++ nodeName target

theorem outside_append (h : '"' ∉ cs) : outside false (cs ++ rest) = cs ++ outside false rest := by
  induction cs with
  | nil => rfl
  | cons c cs ih =>
    obtain ⟨hc, hcs⟩ := List.ne_and_not_mem_of_not_mem_cons h
    rw [List.cons_append, outside, if_neg hc.symm, ih hcs]
    rfl

/-- What is quoted is left out. -/
theorem outside_quoted (h : '"' ∉ cs) : outside false ('"' :: (cs ++ '"' :: rest)) = outside false rest := by
  have hinside : outside true (cs ++ '"' :: rest) = outside false rest := by
    induction cs with
    | nil => rfl
    | cons c cs ih =>
      obtain ⟨hc, hcs⟩ := List.ne_and_not_mem_of_not_mem_cons h
      rw [List.cons_append, outside, if_neg hc.symm, if_pos rfl, ih hcs]
  exact hinside

/-- No quote is left in a caption. -/
theorem quote_not_mem_escape (caption : String) : '"' ∉ (escape caption).toList := by
  rw [escape, String.toList_ofList, List.mem_flatMap]
  rintro ⟨c, -, hc⟩
  split at hc
  · exact absurd hc (by decide)
  · rename_i hne
    exact hne (List.mem_singleton.1 hc).symm

theorem toList_nodeName (id : Node) : (nodeName id).toList = 'n' :: Nat.toDigits 10 id := by
  have hdigits : (toString id).toList = Nat.toDigits 10 id := Nat.toList_repr
  rw [nodeName, String.toList_append, hdigits]
  rfl

/-- **Different numbers make different names.** -/
theorem nodeName_injective : Function.Injective nodeName := fun m n h => by
  have hlist := congrArg String.toList h
  rw [toList_nodeName, toList_nodeName] at hlist
  exact Text.eq_of_toDigits (List.cons.inj hlist).2

theorem quote_not_mem_nodeName (id : Node) : '"' ∉ (nodeName id).toList := by
  rw [toList_nodeName, List.mem_cons, not_or]
  exact ⟨by decide, fun h => absurd (Text.isDigit_of_mem_toDigits h) (by decide)⟩

/-- Texts without quotes in a row. -/
theorem quote_not_mem_append {s t : String} (hs : '"' ∉ s.toList) (ht : '"' ∉ t.toList) :
    '"' ∉ (s ++ t).toList := by
  rw [String.toList_append, List.mem_append, not_or]
  exact ⟨hs, ht⟩

/-- **Outside of its quotes** a statement is its frame. -/
theorem outside_text (st : Statement) :
    outside false (st.text.toList ++ rest) = st.frame.toList ++ outside false rest := by
  have hcut {before behind : String} (caption : String) (hbefore : '"' ∉ before.toList)
      (hbehind : '"' ∉ behind.toList) :
      outside false ((before ++ "\"" ++ escape caption ++ "\"" ++ behind).toList ++ rest) =
        (before ++ behind).toList ++ outside false rest := by
    have hquote : "\"".toList = ['"'] := rfl
    simp only [String.toList_append, hquote, List.append_assoc, List.cons_append, List.nil_append]
    rw [outside_append hbefore, outside_quoted (quote_not_mem_escape caption), outside_append hbehind]
  cases st with
  | node id shape caption =>
    have hbefore : '"' ∉ ("    " ++ nodeName id ++ shape.brackets.1).toList := by
      refine quote_not_mem_append (quote_not_mem_append (by decide) (quote_not_mem_nodeName id)) ?_
      cases shape <;> decide
    have hbehind : '"' ∉ shape.brackets.2.toList := by cases shape <;> decide
    exact hcut caption hbefore hbehind
  | edge source target label dotted =>
    have hbefore : '"' ∉ ("    " ++ nodeName source ++ if dotted then " -.->" else " -->").toList := by
      refine quote_not_mem_append (quote_not_mem_append (by decide) (quote_not_mem_nodeName source)) ?_
      cases dotted <;> decide
    have hbehind : '"' ∉ (" " ++ nodeName target).toList :=
      quote_not_mem_append (by decide) (quote_not_mem_nodeName target)
    cases label with
    | none =>
      refine outside_append (quote_not_mem_append ?_ (quote_not_mem_nodeName target))
      exact quote_not_mem_append (quote_not_mem_append hbefore (by decide)) (by decide)
    | some l =>
      have hopened : '"' ∉ ("    " ++ nodeName source ++ (if dotted then " -.->" else " -->") ++ "|").toList :=
        quote_not_mem_append hbefore (by decide)
      have hclosed : '"' ∉ ("|" ++ (" " ++ nodeName target)).toList :=
        quote_not_mem_append (by decide) hbehind
      have hlabel := hcut l hopened hclosed
      simpa [Statement.text, Statement.frame] using hlabel

/-- Outside of the quotes a chart is its frames, line by line. -/
theorem outside_join (chart : List Statement) :
    outside false (String.join (chart.map fun st => st.text ++ "\n")).toList =
      (String.join (chart.map fun st => st.frame ++ "\n")).toList := by
  induction chart with
  | nil => rfl
  | cons st chart ih =>
    rw [List.map_cons, List.map_cons, String.join_cons, String.join_cons, String.toList_append,
      String.toList_append, String.toList_append, String.toList_append, List.append_assoc, outside_text,
      outside_append (by decide), ih, List.append_assoc]

/-! ## Reading a chart back -/

/-- Reads the name of a node, and gives what follows it. -/
def readNode? : List Char → Option (Node × List Char)
  | 'n' :: cs =>
    let (digits, rest) := Decimal.spanDigits cs
    if digits.isEmpty then none else some (Text.digitsValue digits, rest)
  | _ => none

/-- Reads an indented line of a chart: a node, or an edge if an arrow stands behind a blank. -/
def readLine? (line : List Char) : Option (Node ⊕ Node × Node) := do
  let (source, rest) ← readNode? (line.drop 4)
  match rest with
  | ' ' :: arrow =>
    let (target, _) ← readNode? ((arrow.dropWhile (· ≠ ' ')).drop 1)
    return .inr (source, target)
  | _ => return .inl source

/-- **Reads a chart**: the lines between its heading and its end, without what they quote. -/
def readChart? (text : String) : Option (List (Node ⊕ Node × Node)) :=
  ((Text.splitAt '\n' (outside false text.toList)).drop 1).dropLast.mapM readLine?

/-- The node or the edge that a statement shows. -/
def Statement.shown : Statement → Node ⊕ Node × Node
  | .node id _ _ => .inl id
  | .edge source target _ _ => .inr (source, target)

theorem readNode?_append (id : Node) (hrest : ∀ c ∈ rest.head?, Text.isDigit c = false) :
    readNode? ((nodeName id).toList ++ rest) = some (id, rest) := by
  have hspan : Decimal.spanDigits (Nat.toDigits 10 id ++ rest) = (Nat.toDigits 10 id, rest) :=
    Decimal.spanDigits_append (fun _ => Text.isDigit_of_mem_toDigits) hrest
  have hne : (Nat.toDigits 10 id).isEmpty = false := List.isEmpty_eq_false_iff.2 Nat.toDigits_ne_nil
  have hvalue : Text.digitsValue (Nat.toDigits 10 id) = id := Nat.ofDigitChars_ten_toDigits
  rw [toList_nodeName, List.cons_append, readNode?, hspan]
  dsimp only
  rw [hne, hvalue]
  rfl

/-- **A frame is read back.** -/
theorem readLine?_frame (st : Statement) : readLine? st.frame.toList = some st.shown := by
  cases st with
  | node id shape caption =>
    have hdrop : (Statement.node id shape caption).frame.toList.drop 4 =
        (nodeName id).toList ++ (shape.brackets.1 ++ shape.brackets.2).toList := by
      simp [Statement.frame]
    have hdigit : ∀ c ∈ (shape.brackets.1 ++ shape.brackets.2).toList.head?, Text.isDigit c = false := by
      rw [String.toList_append]
      intro c hc
      cases shape <;>
      · obtain rfl := Option.some.inj hc
        rfl
    rw [readLine?, hdrop, readNode?_append id hdigit]
    cases shape <;> rfl
  | edge source target label dotted =>
    obtain ⟨arrow, harrow⟩ : ∃ arrow, arrow =
      ((if dotted then "-.->" else "-->") ++ (label.map fun _ => "||").getD "").toList := ⟨_, rfl⟩
    have hblank : ' ' ∉ arrow := by
      rw [harrow]
      cases dotted <;> cases label <;> simp
    have hdrop : (Statement.edge source target label dotted).frame.toList.drop 4 =
        (nodeName source).toList ++ ' ' :: (arrow ++ ' ' :: (nodeName target).toList) := by
      rw [harrow]
      cases dotted <;> cases label <;> simp [Statement.frame]
    have hbehind : (arrow ++ ' ' :: (nodeName target).toList).dropWhile (· ≠ ' ') =
        ' ' :: (nodeName target).toList := by
      rw [List.dropWhile_append_of_pos fun c hc => decide_eq_true (ne_of_mem_of_not_mem hc hblank)]
      rfl
    have hsource :
        ∀ c ∈ (' ' :: (arrow ++ ' ' :: (nodeName target).toList)).head?, Text.isDigit c = false := by
      rintro c ⟨⟩
      rfl
    have htarget : readNode? ((nodeName target).toList ++ []) = some (target, []) :=
      readNode?_append target nofun
    rw [List.append_nil] at htarget
    rw [readLine?, hdrop, readNode?_append source hsource]
    show (readNode? (((arrow ++ ' ' :: (nodeName target).toList).dropWhile (· ≠ ' ')).drop 1)).bind
      (fun r => some (Sum.inr (source, r.1))) = some (Sum.inr (source, target))
    rw [hbehind, List.drop_one, List.tail_cons, htarget]
    rfl

/-- A frame is one line. -/
theorem newline_not_mem_frame (st : Statement) : '\n' ∉ st.frame.toList := by
  have hname (id : Node) : '\n' ∉ (nodeName id).toList := by
    rw [toList_nodeName, List.mem_cons, not_or]
    exact ⟨by decide, fun h => absurd (Text.isDigit_of_mem_toDigits h) (by decide)⟩
  cases st with
  | node id shape caption => cases shape <;> simp [Statement.frame, Shape.brackets, hname]
  | edge source target label dotted => cases dotted <;> cases label <;> simp [Statement.frame, hname]

/-- The lines of a chart. -/
theorem splitAt_frames (chart : List Statement) :
    Text.splitAt '\n' (String.join (chart.map fun st => st.frame ++ "\n")).toList =
      chart.map (fun st => st.frame.toList) ++ [[]] := by
  induction chart with
  | nil => rfl
  | cons st chart ih =>
    have hline : "\n".toList = ['\n'] := rfl
    rw [List.map_cons, String.join_cons, String.toList_append, String.toList_append, hline, List.append_assoc,
      List.singleton_append, Text.splitAt_append (newline_not_mem_frame st), ih]
    rfl

theorem mapM_readLine? (chart : List Statement) :
    (chart.map fun st => st.frame.toList).mapM readLine? = some (chart.map Statement.shown) := by
  induction chart with
  | nil => rfl
  | cons st chart ih =>
    rw [List.map_cons, List.mapM_cons, readLine?_frame, ih]
    rfl

/-- The nodes that a chart shows. -/
theorem filterMap_getLeft?_shown (chart : List Statement) :
    (chart.map Statement.shown).filterMap Sum.getLeft? = ids chart := by
  rw [ids, nodes, List.filterMap_map, List.map_filterMap]
  refine List.filterMap_congr fun st _ => ?_
  cases st <;> rfl

/-- The edges that it shows. -/
theorem filterMap_getRight?_shown (chart : List Statement) :
    (chart.map Statement.shown).filterMap Sum.getRight? = edges chart := by
  rw [edges, List.filterMap_map]
  refine List.filterMap_congr fun st _ => ?_
  cases st <;> rfl

end Flowchart

namespace Workflow

open Flowchart Validation

variable {w : Workflow}

/-! ## Nodes and paths -/

/-- In a valid workflow each branch has options and each group members. -/
theorem filled_of_valid (h : w.check.isValid) {s : Step} (hs : s ∈ w.steps.flatMap Step.subtree) :
    Filled s := by
  obtain ⟨scope, topLevel, loc, hnone⟩ := stepIssues_of_valid (parts_of_valid h).2 hs
  obtain ⟨-, hkind⟩ := List.append_eq_nil_iff.1 hnone
  unfold Filled
  cases hk : s.kind with
  | branch options =>
    rw [hk, kindIssues, List.append_eq_nil_iff, issueIf_eq_nil] at hkind
    rintro - hempty
    rw [List.map_eq_nil_iff.1 hempty] at hkind
    exact absurd hkind.1 (by decide)
  | parallel members =>
    rw [hk, kindIssues, issueIf_eq_nil] at hkind
    rintro - hempty
    obtain rfl : members = [] := hempty
    contradiction
  | _ => exact nofun

/-- The node of the end. -/
def lastNode (w : Workflow) : Node := w.located.length + 1

theorem next_sequence (w : Workflow) : (sequence [0] 1 w.steps).next = w.lastNode := by
  rw [(declares_sequence [0] 1 w.steps).next, ← located_steps, List.length_map, Nat.add_comm]
  rfl

/-- **The nodes of a flowchart**: the start, one for each step, and the end. -/
theorem nodes_flowchart (w : Workflow) : nodes w.flowchart =
    (0, .start, w.name) :: (numbered 1 (w.located.map Prod.snd) ++ [(w.lastNode, .finish, "end")]) := by
  rw [flowchart, nodes_cons_node, nodes_append, (declares_sequence [0] 1 w.steps).nodes, nodes_cons_node,
    next_sequence, located_steps, join, nodes_map_edge]

/-- They are numbered in order. -/
theorem ids_flowchart (w : Workflow) : ids w.flowchart = List.range (w.located.length + 2) := by
  have hrange : List.range (w.located.length + 2) = 0 :: (List.range' 1 w.located.length ++ [w.lastNode]) := by
    rw [List.range_eq_range', List.range'_succ, List.range'_concat, lastNode]
    simp [Nat.add_comm]
  rw [ids, nodes_flowchart, List.map_cons, List.map_append, map_fst_numbered, List.length_map, hrange]
  rfl

/-- **A flowchart is gone through** from the start to the end. -/
theorem through_flowchart (h : w.check.isValid) : Through w.flowchart 0 [w.lastNode] := by
  have hsteps := through_sequence (through_node 0 .start w.name) (fun _ => filled_of_valid h) 1
  have hall := hsteps.andThen (through_node w.lastNode .finish "end")
  rw [flowchart, next_sequence]
  rw [List.append_assoc] at hall
  exact hall

/-! ## What the text shows -/

/-- **The text of a flowchart is read back** as its nodes and edges, whatever is quoted in it. -/
theorem readChart?_mermaid (w : Workflow) :
    readChart? w.mermaid = some (w.flowchart.map Statement.shown) := by
  have htext : w.mermaid =
      "flowchart TD" ++ "\n" ++ String.join (w.flowchart.map fun st => st.text ++ "\n") := by
    rw [mermaid, List.map_cons, List.map_map, String.join_cons]
    rfl
  have hheading : ("flowchart TD" ++ "\n").toList = "flowchart TD".toList ++ ['\n'] := String.toList_append
  rw [readChart?, htext, String.toList_append, outside_append (by decide), outside_join, hheading,
    List.append_assoc, List.singleton_append, Text.splitAt_append (by decide), splitAt_frames, List.drop_one,
    List.tail_cons, List.dropLast_concat, mapM_readLine?]

/-- **The graph that is drawn for a workflow.** -/
structure Drawn (w : Workflow) : Prop where
  /-- The steps at all depths are listed, each where it stands. -/
  steps : w.ListsSteps w.located
  /-- There is a node for the start, one for each step, and one for the end. -/
  nodes : nodes w.flowchart =
    (0, .start, w.name) :: (numbered 1 (w.located.map Prod.snd) ++ [(w.lastNode, .finish, "end")])
  /-- They are numbered in order, -/
  ids : ids w.flowchart = List.range (w.located.length + 2)
  /-- and their names are different. -/
  names : ((Flowchart.ids w.flowchart).map nodeName).Nodup
  /-- Every edge joins two of them. -/
  closed : ∀ a b, (a, b) ∈ edges w.flowchart →
    a ∈ Flowchart.ids w.flowchart ∧ b ∈ Flowchart.ids w.flowchart
  /-- Every node is reached from the start. -/
  reached : ∀ n ∈ Flowchart.ids w.flowchart, Leads w.flowchart 0 n
  /-- Every node reaches the end. -/
  left : ∀ n ∈ Flowchart.ids w.flowchart, Leads w.flowchart n w.lastNode
  /-- The text is read back as these nodes and edges. -/
  text : ∃ shown, readChart? w.mermaid = some shown ∧
    shown.filterMap Sum.getLeft? = Flowchart.ids w.flowchart ∧
    shown.filterMap Sum.getRight? = edges w.flowchart

/-- **The flowchart of a valid workflow is connected and complete.** -/
theorem mermaid_connected (h : w.check.isValid = true) : w.Drawn := by
  have hthrough := through_flowchart h
  refine
    { steps := w.lists_located
      nodes := w.nodes_flowchart
      ids := w.ids_flowchart
      names := ?_
      closed := hthrough.closed
      reached := hthrough.reached
      left := fun n hn => ?_
      text := ⟨_, w.readChart?_mermaid, filterMap_getLeft?_shown _, filterMap_getRight?_shown _⟩ }
  · rw [ids_flowchart]
    exact List.nodup_range.map nodeName_injective
  · obtain ⟨e, he, hne⟩ := hthrough.left n hn
    exact List.mem_singleton.1 he ▸ hne

end Workflow

namespace Sample

/-- Whether the input is set. -/
def ifGo : Expression := ⟨"$\x7b\x7b inputs.go \x7d\x7d", .input, [.field "go"], false⟩

/-- A workflow with a fix, a group, a branch and a fallback. -/
def spreading : Workflow :=
  { Workflow.empty "main" with
    inputs := [("go", { type := .boolean })]
    steps := [
      { Step.branch "choose" with
        kind := .branch [⟨ifGo, { Step.validate "checks" ["lint"] with
          kind := .validate ["lint"] 1 (some (Step.agent "fix" "fixer")) }⟩]
        onError := some (Step.call "notify" "tell") },
      { Step.parallel "reviews" with
        kind := .parallel [Step.agent "first" "reader", Step.agent "second" "reader"] }] }

end Sample

namespace Workflow

open Flowchart Sample

/-- The fix leads back to its validation, which is left for the group, and so is the fallback of the branch;
every node is on a way from the start to the end. -/
theorem mermaid_connected_spreading : spreading.check.isValid = true ∧
    edges spreading.flowchart = [(2, 3), (3, 2), (1, 2), (1, 4), (0, 1), (5, 6), (5, 7), (2, 5), (4, 5),
      (6, 8), (7, 8)] ∧
    (List.range 9).map nodeName = ["n0", "n1", "n2", "n3", "n4", "n5", "n6", "n7", "n8"] ∧
    ∀ n < 9, Leads spreading.flowchart 0 n ∧ Leads spreading.flowchart n 8 := by
  have hvalid : spreading.check.isValid = true := by decide
  have hdrawn := mermaid_connected hvalid
  refine ⟨hvalid, by decide, by decide, fun n hn => ?_⟩
  have hmem : n ∈ ids spreading.flowchart := by
    rw [hdrawn.ids]
    exact List.mem_range.2 hn
  exact ⟨hdrawn.reached n hmem, hdrawn.left n hmem⟩

end Workflow

end Stepflow
