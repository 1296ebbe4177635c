import Stepflow.Proofs.Document.Locations

/-!
# The names of components in a workflow

A step names components in the fields of its kind, and the callable that undoes it (`Step.Names`). What
`Workflow.references` lists are all such names in all steps of a workflow, each once
(`mem_references_iff`, `references_nodup`).

So the check of references reports every name that is not registered where it stands, once for each
occurrence, and nothing else. The text of the location that it gives leads to the name in the document of the
workflow (`referenceErrors_exact`).
-/

namespace Stepflow

variable {κ : Type} {w : Workflow} {s : Step} {loc l l' : Location} {space other : Namespace}
  {name name' : String}

namespace Step

/-- **A step names a component** in a namespace, at the end of a way through its fields. -/
inductive Names (s : Step) : Location → Namespace → String → Prop
  /-- The callable that it calls. -/
  | action {name : String} {args : List Value} {kwargs : Fields} (h : s.kind = .call name args kwargs) :
      Names s [.field "action"] .callables name
  /-- The agent that it asks. -/
  | agent {name : String} {context : Fields} {builder : Option String}
      (h : s.kind = .agent name context builder) : Names s [.field "agent"] .agents name
  /-- What builds the context for the agent. -/
  | agentContext {agent name : String} {context : Fields} (h : s.kind = .agent agent context (some name)) :
      Names s [.field "context_builder"] .contextBuilders name
  /-- The generator that it asks. -/
  | generator {name : String} {context : Fields} {builder : Option String}
      (h : s.kind = .generate name context builder) : Names s [.field "generator"] .generators name
  /-- What builds the context for the generator. -/
  | generatorContext {generator name : String} {context : Fields}
      (h : s.kind = .generate generator context (some name)) :
      Names s [.field "context_builder"] .contextBuilders name
  /-- A stage of its validation. -/
  | stage {stages : List String} {retry n : Nat} {fix : Option Step} {name : String}
      (h : s.kind = .validate stages retry fix) (hn : stages[n]? = some name) :
      Names s [.field "stages", .index n] .callables name
  /-- The workflow that it runs. -/
  | workflow {name : String} {inputs : Fields} (h : s.kind = .subworkflow name inputs) :
      Names s [.field "workflow"] .workflows name
  /-- The callable that undoes it. -/
  | rollback {name : String} (h : s.rollback = some name) : Names s [.field "rollback"] .callables name

/-! ## The names in one step -/

theorem stageReferences_eq (loc : Location) (place : Nat) (stages : List String) :
    stageReferences loc place stages =
      stages.mapIdx fun n name => ⟨loc ++ [.index (place + n)], .callables, name⟩ := by
  induction stages generalizing place with
  | nil => rfl
  | cons s rest ih =>
    rw [stageReferences, ih, List.mapIdx_cons]
    simp only [Location.index, Nat.add_zero, Nat.add_comm 1, Nat.add_assoc]

/-- **The names in a step** are listed, and nothing else. -/
theorem mem_references_iff {ref : Reference} : ref ∈ s.references loc ↔
    ∃ way, s.Names way ref.space ref.name ∧ ref.location = loc ++ way := by
  unfold references
  rw [List.mem_append]
  constructor
  · rintro (h | h)
    · generalize hk : s.kind = kind at h
      cases kind with
      | call action args kwargs =>
        obtain rfl := List.mem_singleton.1 h
        exact ⟨_, .action hk, rfl⟩
      | agent agent context builder =>
        obtain rfl | h := List.mem_cons.1 h
        · exact ⟨_, .agent hk, rfl⟩
        · obtain ⟨b, hb, rfl⟩ := List.mem_map.1 h
          exact ⟨_, .agentContext (Option.mem_toList.1 hb ▸ hk), rfl⟩
      | generate generator context builder =>
        obtain rfl | h := List.mem_cons.1 h
        · exact ⟨_, .generator hk, rfl⟩
        · obtain ⟨b, hb, rfl⟩ := List.mem_map.1 h
          exact ⟨_, .generatorContext (Option.mem_toList.1 hb ▸ hk), rfl⟩
      | validate stages retry fix =>
        rw [kindReferences, stageReferences_eq] at h
        obtain ⟨n, hn, rfl⟩ := List.mem_mapIdx.1 h
        refine ⟨_, .stage hk (List.getElem?_eq_getElem hn), ?_⟩
        rw [Nat.zero_add, Location.field, List.append_assoc]
        rfl
      | subworkflow workflow inputs =>
        obtain rfl := List.mem_singleton.1 h
        exact ⟨_, .workflow hk, rfl⟩
      | branch options => contradiction
      | parallel members => contradiction
    · obtain ⟨a, ha, rfl⟩ := List.mem_map.1 h
      exact ⟨_, .rollback (Option.mem_toList.1 ha), rfl⟩
  · obtain ⟨location, space, name⟩ := ref
    rintro ⟨way, h, rfl⟩
    cases h with
    | @stage stages retry n fix name h hn =>
      obtain ⟨hlt, rfl⟩ := List.getElem?_eq_some_iff.1 hn
      refine .inl ?_
      rw [h, kindReferences, stageReferences_eq]
      refine List.mem_mapIdx.2 ⟨n, hlt, ?_⟩
      rw [Nat.zero_add, Location.field, List.append_assoc]
      rfl
    | rollback h => exact .inr (by simp [h, Location.field])
    | action h | agent h | agentContext h | generator h | generatorContext h | workflow h =>
      exact .inl (by simp [h, kindReferences, Location.field])

/-- One name stands at the end of a way. -/
theorem Names.unique (h : s.Names l space name) (h' : s.Names l' other name') (hl : l = l') :
    space = other ∧ name = name' := by
  cases h <;> cases h' <;> simp_all

/-- A way to a name is a field, or a place in the list of a field. -/
theorem Names.way (h : s.Names l space name) :
    (∃ field, l = [.field field]) ∨ ∃ field n, l = [.field field, .index n] := by
  cases h with
  | stage => exact .inr ⟨_, _, rfl⟩
  | _ => exact .inl ⟨_, rfl⟩

/-- What its kind names stands apart from what undoes a step. -/
theorem location_ne_rollback {kind : StepKind Step} {ref : Reference} (h : ref ∈ kindReferences loc kind) :
    ref.location ≠ loc.field "rollback" := by
  cases kind with
  | call | subworkflow =>
    obtain rfl := List.mem_singleton.1 h
    simp [Location.field]
  | agent | generate =>
    obtain rfl | h := List.mem_cons.1 h
    · simp [Location.field]
    · obtain ⟨b, _, rfl⟩ := List.mem_map.1 h
      simp [Location.field]
  | validate stages retry fix =>
    rw [kindReferences, stageReferences_eq] at h
    obtain ⟨n, _, rfl⟩ := List.mem_mapIdx.1 h
    simp [Location.field]
  | branch | parallel => contradiction

/-- The names in a step stand at different places. -/
theorem references_nodup (loc : Location) (s : Step) :
    ((s.references loc).map Reference.location).Nodup := by
  have hkind : ((kindReferences loc s.kind).map Reference.location).Nodup := by
    cases s.kind with
    | agent agent context builder => cases builder <;> simp [kindReferences, Location.field]
    | generate generator context builder => cases builder <;> simp [kindReferences, Location.field]
    | validate stages retry fix =>
      rw [kindReferences, stageReferences_eq, List.nodup_iff_injective_getElem]
      intro m n heq
      simpa [Fin.ext_iff] using heq
    | _ => simp [kindReferences]
  rw [references, List.map_append, List.nodup_append]
  refine ⟨hkind, by cases s.rollback <;> simp, ?_⟩
  rintro a ha b hb rfl
  obtain ⟨ref, href, rfl⟩ := List.mem_map.1 ha
  obtain ⟨_, hrollback, heq⟩ := List.mem_map.1 hb
  obtain ⟨_, _, rfl⟩ := List.mem_map.1 hrollback
  exact location_ne_rollback href heq.symm

/-- **A name stands in the object of the step** at the end of its way. -/
theorem Names.follow (h : s.Names l space name) : s.toValue.inOrder.follow? l = some (.str name) := by
  rw [toValue_eq]
  cases h with
  | @stage stages retry n fix name h hn =>
    have hvs : s.fields.lookup "stages" = some (.arr (stages.map .str)) :=
      lookup_fields_kind h (by simp [Validation.payloadFields, StepKind.type]) (by simp [payload])
    have hv : (stages.map Value.str)[n]? = some (.str name) := by
      rw [List.getElem?_map, hn]
      rfl
    exact Value.follow?_member s.fields_nodup hvs hv
  | rollback h =>
    refine Value.follow?_field (v := .str name) s.fields_nodup ?_
    rw [s.lookup_fields_of_decoration (by decide)]
    simp [decorations, List.lookup_append, h]
  | action h | agent h | agentContext h | generator h | generatorContext h | workflow h =>
    exact Value.follow?_field (v := .str name) s.fields_nodup (lookup_fields_kind h
      (by simp [Validation.payloadFields, StepKind.type]) (by simp [payload, List.lookup_append]))

theorem Names.plain (h : s.Names l space name) : ∀ x ∈ l, x.Plain := by
  cases h <;> simp [Segment.Plain, Segment.isPlainChar]

end Step

/-! ## The names in a workflow -/

namespace Workflow

/-- **A workflow mentions a component**: one of its steps names it, where the step stands. -/
inductive Mentions (w : Workflow) : Location → Namespace → String → Prop
  | intro {loc way : Location} {s : Step} {space : Namespace} {name : String} (hs : w.Stands loc s)
      (hn : s.Names way space name) : Mentions w (loc ++ way) space name

theorem mem_references_iff {ref : Reference} :
    ref ∈ w.references ↔ w.Mentions ref.location ref.space ref.name := by
  obtain ⟨location, space, name⟩ := ref
  unfold references
  rw [List.mem_flatMap]
  constructor
  · rintro ⟨⟨loc, s⟩, hs, href⟩
    obtain ⟨way, hn, rfl⟩ := Step.mem_references_iff.1 href
    exact .intro (mem_located_iff.1 hs) hn
  · rintro ⟨hs, hn⟩
    exact ⟨(_, _), mem_located_iff.2 hs, Step.mem_references_iff.2 ⟨_, hn, rfl⟩⟩

/-- What steps at different places name stands at different places. -/
theorem loc_eq_of_names {a b k l : Location} {s t : Step} (hs : s.Names k space name)
    (ht : t.Names l other name') (h : a ++ k = b ++ l) : a = b := by
  obtain ⟨f, rfl⟩ | ⟨f, m, rfl⟩ := hs.way <;> obtain ⟨g, rfl⟩ | ⟨g, n, rfl⟩ := ht.way
  · exact (List.append_inj' h rfl).1
  · have := congrArg List.getLast? h
    simp at this
  · have := congrArg List.getLast? h
    simp at this
  · exact (List.append_inj' h rfl).1

/-- **No name is listed twice.** -/
theorem references_nodup (w : Workflow) : (w.references.map Reference.location).Nodup := by
  rw [references, List.map_flatMap]
  refine List.nodup_flatMap.2 ⟨fun e _ => Step.references_nodup e.1 e.2, ?_⟩
  refine (List.pairwise_map.1 w.lists_located.nodup).imp ?_
  rintro ⟨a, s⟩ ⟨b, t⟩ hne l hl hl'
  obtain ⟨ref, href, rfl⟩ := List.mem_map.1 hl
  obtain ⟨ref', href', heq⟩ := List.mem_map.1 hl'
  obtain ⟨k, hk, hloc⟩ := Step.mem_references_iff.1 href
  obtain ⟨k', hk', hloc'⟩ := Step.mem_references_iff.1 href'
  exact hne (loc_eq_of_names hk hk' (by rw [← hloc, ← hloc', heq]))

theorem Mentions.plain (h : w.Mentions loc space name) : loc.Plain := by
  obtain ⟨hs, hn⟩ := h
  exact hs.plain.append hn.plain

/-- **A name that is mentioned** stands in the document where it is mentioned. -/
theorem Mentions.follow (h : w.Mentions loc space name) : w.document.follow? loc = some (.str name) := by
  obtain ⟨hs, hn⟩ := h
  refine Value.follow?_finite (u := .str name) ?_
  rw [Value.follow?_append, hs.follow]
  exact hn.follow

/-! ## The check of references -/

/-- What a registry reports for a name that is not registered. -/
def unknownAt (r : Registry κ) (ref : Reference) : RegistryError :=
  { kind := r.unknownKind, space := ref.space, name := ref.name, location := some ref.location.text }

/-- **Every name that is not registered is reported** where it stands. -/
structure ReportsUnknown (w : Workflow) (r : Registry κ) (es : List RegistryError) : Prop where
  /-- There is one error for each occurrence of a name that is not registered in its namespace, and there is
  no other. -/
  exact : ∃ refs : List Reference, refs.Nodup ∧ es = refs.map (unknownAt r) ∧
    ∀ ref, ref ∈ refs ↔ w.Mentions ref.location ref.space ref.name ∧ r.has ref.space ref.name = false
  /-- No two errors have the same location. -/
  apart : (es.map RegistryError.location).Nodup
  /-- The location of an error leads to its name in the document of the workflow. -/
  leads : ∀ e ∈ es, ∃ text, e.location = some text ∧ w.document.LeadsTo text (.str e.name)

/-- The occurrences of names that are not registered. -/
def unknownReferences (w : Workflow) (r : Registry κ) : List Reference :=
  w.references.filter fun ref => !r.has ref.space ref.name

theorem mem_unknownReferences_iff {r : Registry κ} {ref : Reference} : ref ∈ w.unknownReferences r ↔
    w.Mentions ref.location ref.space ref.name ∧ r.has ref.space ref.name = false := by
  rw [unknownReferences, List.mem_filter, mem_references_iff, Bool.not_eq_true']

theorem referenceErrors_eq (w : Workflow) (r : Registry κ) :
    w.referenceErrors r = (w.unknownReferences r).map (unknownAt r) := by
  rw [unknownReferences, referenceErrors, unresolved, List.map_filterMap, ← List.filterMap_eq_filter, List.map_filterMap]
  refine List.filterMap_congr fun ref _ => ?_
  cases h : r.has ref.space ref.name <;>
    simp [unresolved?, Registry.referenceError?, Option.guard, unknownAt, h]

/-- **References are reported exactly.** Whatever a workflow and a registry are, each occurrence of a name
that is not registered is reported once, wherever it stands, with a location whose text leads to the name in
the document of the workflow; and nothing else is reported. -/
theorem referenceErrors_exact (w : Workflow) (r : Registry κ) :
    w.ReportsUnknown r (w.referenceErrors r) := by
  have hlocations : ((w.unknownReferences r).map Reference.location).Nodup :=
    w.references_nodup.sublist (List.filter_sublist.map _)
  rw [referenceErrors_eq]
  refine ⟨⟨_, .of_map _ hlocations, rfl, fun _ => mem_unknownReferences_iff⟩, ?_, fun e he => ?_⟩
  · have htexts : ((w.unknownReferences r).map (unknownAt r)).map RegistryError.location =
        ((w.unknownReferences r).map Reference.location).map fun l => some l.text := by
      rw [List.map_map, List.map_map]
      rfl
    rw [htexts]
    refine List.Nodup.map_on (fun a ha b hb heq => ?_) hlocations
    obtain ⟨ref, href, rfl⟩ := List.mem_map.1 ha
    obtain ⟨other, hother, rfl⟩ := List.mem_map.1 hb
    exact (mem_unknownReferences_iff.1 href).1.plain.eq_of_text
      (mem_unknownReferences_iff.1 hother).1.plain (Option.some.inj heq)
  · obtain ⟨ref, href, rfl⟩ := List.mem_map.1 he
    have hmention := (mem_unknownReferences_iff.1 href).1
    exact ⟨_, rfl, Value.leadsTo_of_follow hmention.plain hmention.follow⟩

end Workflow

end Stepflow
