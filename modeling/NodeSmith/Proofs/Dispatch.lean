import NodeSmith.Dispatch

set_option autoImplicit false

namespace NodeSmith.DispatchGroup

/-- One after another the groups hold the creatable definitions, in schema order. -/
theorem flatMap_members (definitions : List Definition) :
    (ofDefinitions definitions).flatMap members = definitions.filter Definition.creatable := by
  fun_induction ofDefinitions definitions with
  | case1 => rfl
  | case2 definition rest groups skipped ih =>
    have absent : ¬definition.creatable = true := by simpa using skipped
    rw [ih, List.filter_cons_of_neg absent]
  | case3 definition rest groups _ updates ih =>
    rw [List.flatMap_cons, ih,
      List.filter_cons_of_pos (Definition.creatable_of_updatable updates), List.singleton_append]
  | case4 definition rest groups kept _ run more made ih =>
    have creatable : definition.creatable = true := by simpa using kept
    have joined : ofDefinitions rest = _ := made
    rw [joined, List.flatMap_cons] at ih
    rw [List.flatMap_cons, List.filter_cons_of_pos creatable, ← ih, List.cons_append]
  | case5 definition rest groups kept _ _ ih =>
    have creatable : definition.creatable = true := by simpa using kept
    rw [List.flatMap_cons, ih, List.filter_cons_of_pos creatable, List.singleton_append]

theorem mem_of_mem_ofDefinitions {definitions : List Definition} {group : DispatchGroup}
    (found : group ∈ ofDefinitions definitions) {definition : Definition}
    (member : definition ∈ group.members) :
    definition ∈ definitions ∧ definition.creatable = true := by
  rw [← List.mem_filter, ← flatMap_members, List.mem_flatMap]
  exact ⟨group, found, member⟩

/-- A group is of one sort, and an updatable one has a single definition. -/
theorem uniform_of_mem_ofDefinitions (definitions : List Definition) :
    ∀ group ∈ ofDefinitions definitions, ∀ definition ∈ group.members,
      group.updatable = definition.updatable ∧
        (definition.updatable = true → group.members = [definition]) := by
  fun_induction ofDefinitions definitions with
  | case1 => exact List.forall_mem_nil _
  | case2 definition rest groups skipped ih => exact ih
  | case3 definition rest groups kept updates ih =>
    refine List.forall_mem_cons.mpr ⟨?_, ih⟩
    rw [List.forall_mem_singleton]
    exact ⟨updates.symm, fun _ => rfl⟩
  | case4 definition rest groups kept fixed run more made ih =>
    have joined : ofDefinitions rest = ⟨false, run⟩ :: more := made
    rw [joined, List.forall_mem_cons] at ih
    refine List.forall_mem_cons.mpr ⟨List.forall_mem_cons.mpr ⟨?_, ?_⟩, ih.2⟩
    · exact ⟨(eq_false_of_ne_true fixed).symm, fun updates => absurd updates fixed⟩
    · intro other member
      have same := (ih.1 other member).1
      exact ⟨same, fun updates => absurd (same.trans updates) Bool.false_ne_true⟩
  | case5 definition rest groups kept fixed apart ih =>
    refine List.forall_mem_cons.mpr ⟨?_, ih⟩
    rw [List.forall_mem_singleton]
    exact ⟨(eq_false_of_ne_true fixed).symm, fun updates => absurd updates fixed⟩

end NodeSmith.DispatchGroup
