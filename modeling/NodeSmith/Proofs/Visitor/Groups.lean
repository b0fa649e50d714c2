import Mathlib.Data.List.Chain
import NodeSmith.Factory
import NodeSmith.Proofs.Dispatch
import NodeSmith.Proofs.Layout.Content
import NodeSmith.Proofs.SourceFile.Lines

set_option autoImplicit false

namespace NodeSmith

open Layout (Code Cursor Line Token)

def Layout.Line.content : Line → List Char
  | .blank => []
  | .filled _ content => content.toList

namespace Factory

/-- What asking for the update function of a definition comes to, where a function has been written
before or not: whether one has been written then, and what is laid out from a cursor on. -/
def layUpdate (definition : Definition) (written : Bool) (cursor : Cursor) :
    Bool × Cursor × List Token :=
  let (now, code) := follow written (update? definition)
  (now, cursor.run (Code.commandsOf code))

/-- What is laid out is an update function: it has the header of one, and the characters of all its
lines. -/
structure IsUpdate (definition : Definition) (tokens : List Token) : Prop where
  header : "export function update".toList <+: tokens.flatMap Token.content
  lines : tokens.flatMap Token.content =
    ((updateLines 0 definition).flatMap Line.content).filter fun c => !Text.isBreak c

/-- Wherever it is asked for, an update function is written. -/
def WritesUpdate (definition : Definition) : Prop :=
  ∀ written cursor, (layUpdate definition written cursor).1 = true ∧
    IsUpdate definition (layUpdate definition written cursor).2.2

/-- Wherever an update function is asked for, nothing is written, and all stays as it was. -/
def WritesNoUpdate (definition : Definition) : Prop :=
  ∀ written cursor, layUpdate definition written cursor = (written, cursor, [])

theorem layUpdate_of_not_updatable {definition : Definition} (fixed : definition.updatable = false)
    (written : Bool) (cursor : Cursor) :
    layUpdate definition written cursor = (written, cursor, []) := by
  have none : update? definition = none := by
    rw [update?, fixed]
    rfl
  rw [layUpdate, none]
  simp only [follow, Code.commandsOf_nil, Cursor.run_nil]

theorem content_updateFunction (definition : Definition) :
    Code.content (updateFunction definition) =
      ((updateLines 0 definition).flatMap Line.content).filter fun c => !Text.isBreak c := by
  simp only [Code.content, updateFunction, updateLines, Code.commandsOf_cons, Code.commandsOf_nil,
    Code.commands, Layout.Command.content, Line.content, List.flatMap_cons, List.flatMap_nil,
    List.cons_append, List.nil_append, List.append_nil, List.filter_append]

theorem isUpdate_of_content {definition : Definition} {tokens : List Token}
    (same : tokens.flatMap Token.content = Code.content (updateFunction definition)) :
    IsUpdate definition tokens := by
  rw [content_updateFunction] at same
  have unbroken : ("export function update".toList.filter fun c => !Text.isBreak c) =
      "export function update".toList := by decide
  refine ⟨?_, same⟩
  rw [same]
  simp only [updateLines, Line.content, List.flatMap_cons, String.toList_append, List.append_assoc,
    List.filter_append, unbroken]
  exact List.prefix_append _ _

theorem writesUpdate_iff (definition : Definition) :
    WritesUpdate definition ↔ definition.updatable = true := by
  constructor
  · intro writes
    by_contra fixed
    have silent := layUpdate_of_not_updatable (eq_false_of_ne_true fixed) false {}
    have flag := (writes false {}).1
    rw [silent] at flag
    cases flag
  · intro updates written cursor
    have function : update? definition = some (updateFunction definition) := by
      rw [update?, updates]
      rfl
    have blank : Code.content [.blank] = [] := by
      simp only [Code.content, Code.commandsOf_cons, Code.commandsOf_nil, Code.commands]
      rfl
    rw [layUpdate, function]
    refine ⟨rfl, isUpdate_of_content ?_⟩
    dsimp only [follow]
    rw [Cursor.run_content, ← Code.content]
    cases written with
    | false => rfl
    | true =>
      rw [if_pos rfl, ← List.singleton_append, Code.content_append, blank, List.nil_append]

theorem writesNoUpdate_iff (definition : Definition) :
    WritesNoUpdate definition ↔ definition.updatable = false := by
  constructor
  · intro silent
    by_contra updates
    have flag := ((writesUpdate_iff definition).mpr (eq_true_of_ne_false updates) false {}).1
    rw [silent] at flag
    cases flag
  · intro fixed written cursor
    exact layUpdate_of_not_updatable fixed written cursor

end Factory

namespace DispatchGroup

open Factory (WritesUpdate WritesNoUpdate)

/-- Groups of definitions that have an update function each, and runs of definitions without one
that cannot be made longer. -/
structure Runs (groups : List DispatchGroup) : Prop where
  nonempty : ∀ group ∈ groups, group.members ≠ []
  alone : ∀ group ∈ groups, group.updatable = true →
    ∃ definition, group.members = [definition] ∧ WritesUpdate definition
  silent : ∀ group ∈ groups, group.updatable = false →
    ∀ definition ∈ group.members, WritesNoUpdate definition
  apart : groups.IsChain fun first second => first.updatable = true ∨ second.updatable = true

/-- Runs that hold the creatable ones among definitions, in schema order. -/
structure Groups (definitions : List Definition) (groups : List DispatchGroup) : Prop
    extends Runs groups where
  whole : groups.flatMap members = definitions.filter Definition.creatable

theorem nonempty_of_mem_ofDefinitions (definitions : List Definition) :
    ∀ group ∈ ofDefinitions definitions, group.members ≠ [] := by
  fun_induction ofDefinitions definitions with
  | case1 => exact List.forall_mem_nil _
  | case2 definition rest groups skipped ih => exact ih
  | case3 definition rest groups kept updates ih =>
    exact List.forall_mem_cons.mpr ⟨List.cons_ne_nil _ _, ih⟩
  | case4 definition rest groups kept fixed run more made ih =>
    have joined : ofDefinitions rest = ⟨false, run⟩ :: more := made
    rw [joined, List.forall_mem_cons] at ih
    exact List.forall_mem_cons.mpr ⟨List.cons_ne_nil _ _, ih.2⟩
  | case5 definition rest groups kept fixed apart ih =>
    exact List.forall_mem_cons.mpr ⟨List.cons_ne_nil _ _, ih⟩

/-- Of two groups side by side one is updatable: a run takes in what could go on with it. -/
theorem isChain_ofDefinitions (definitions : List Definition) :
    (ofDefinitions definitions).IsChain fun first second =>
      first.updatable = true ∨ second.updatable = true := by
  fun_induction ofDefinitions definitions with
  | case1 => exact .nil
  | case2 definition rest groups skipped ih => exact ih
  | case3 definition rest groups kept updates ih =>
    exact List.isChain_cons.mpr ⟨fun _ _ => .inl rfl, ih⟩
  | case4 definition rest groups kept fixed run more made ih =>
    have joined : ofDefinitions rest = ⟨false, run⟩ :: more := made
    rw [joined, List.isChain_cons] at ih
    exact List.isChain_cons.mpr ih
  | case5 definition rest groups kept fixed apart ih =>
    refine List.isChain_cons.mpr ⟨?_, ih⟩
    intro group first
    obtain ⟨more, made⟩ := List.head?_eq_some_iff.mp first
    cases sort : group.updatable with
    | true => exact .inr rfl
    | false =>
      obtain ⟨updatable, run⟩ := group
      cases sort
      exact absurd made (apart run more)

theorem groups_ofDefinitions (definitions : List Definition) :
    Groups definitions (ofDefinitions definitions) where
  nonempty := nonempty_of_mem_ofDefinitions definitions
  alone := by
    intro group found sort
    obtain ⟨definition, rest, held⟩ :=
      List.exists_cons_of_ne_nil (nonempty_of_mem_ofDefinitions definitions group found)
    have member : definition ∈ group.members := held ▸ List.mem_cons_self
    obtain ⟨same, alone⟩ := uniform_of_mem_ofDefinitions definitions group found definition member
    have updates : definition.updatable = true := same.symm.trans sort
    exact ⟨definition, alone updates, (Factory.writesUpdate_iff definition).mpr updates⟩
  silent := by
    intro group found sort definition member
    have same := (uniform_of_mem_ofDefinitions definitions group found definition member).1
    exact (Factory.writesNoUpdate_iff definition).mpr (same.symm.trans sort)
  apart := isChain_ofDefinitions definitions
  whole := flatMap_members definitions

theorem ofDefinitions_filter_creatable (definitions : List Definition) :
    ofDefinitions (definitions.filter Definition.creatable) = ofDefinitions definitions := by
  induction definitions with
  | nil => rfl
  | cons definition rest ih =>
    cases kept : definition.creatable with
    | false =>
      rw [List.filter_cons_of_neg (by rw [kept]; exact Bool.false_ne_true), ih,
        ofDefinitions, kept]
      rfl
    | true => rw [List.filter_cons_of_pos kept, ofDefinitions, ofDefinitions, ih]

/-- A run before groups that cannot go on with it is a group of its own. -/
theorem ofDefinitions_run_append {run rest : List Definition} (some : run ≠ [])
    (each : ∀ definition ∈ run, definition.creatable = true ∧ definition.updatable = false)
    (apart : ∀ other more, ofDefinitions rest ≠ ⟨false, other⟩ :: more) :
    ofDefinitions (run ++ rest) = ⟨false, run⟩ :: ofDefinitions rest := by
  induction run with
  | nil => exact absurd rfl some
  | cons definition run ih =>
    obtain ⟨⟨creatable, fixed⟩, later⟩ := List.forall_mem_cons.mp each
    rw [List.cons_append, ofDefinitions, creatable, fixed]
    simp only [Bool.not_true, Bool.false_eq_true, ↓reduceIte]
    cases run with
    | nil =>
      rw [List.nil_append]
      generalize ofDefinitions rest = groups at apart ⊢
      cases groups with
      | nil => rfl
      | cons group more =>
        obtain ⟨updatable, other⟩ := group
        cases updatable with
        | true => rfl
        | false => exact absurd rfl (apart other more)
    | cons next run => rw [ih (List.cons_ne_nil _ _) later]

theorem Runs.tail {group : DispatchGroup} {rest : List DispatchGroup}
    (runs : Runs (group :: rest)) : Runs rest where
  nonempty := (List.forall_mem_cons.mp runs.nonempty).2
  alone := (List.forall_mem_cons.mp runs.alone).2
  silent := (List.forall_mem_cons.mp runs.silent).2
  apart := (List.isChain_cons.mp runs.apart).2

/-- Runs are the groups of what they hold. -/
theorem Runs.ofDefinitions_flatMap {groups : List DispatchGroup} (runs : Runs groups)
    (creatable : ∀ definition ∈ groups.flatMap members, definition.creatable = true) :
    ofDefinitions (groups.flatMap members) = groups := by
  induction groups with
  | nil => rfl
  | cons group rest ih =>
    rw [List.flatMap_cons, List.forall_mem_append] at creatable
    have later := ih runs.tail creatable.2
    rw [List.flatMap_cons]
    obtain ⟨updatable, held⟩ := group
    cases updatable with
    | true =>
      obtain ⟨definition, single, writes⟩ := runs.alone _ List.mem_cons_self rfl
      have updates := (Factory.writesUpdate_iff definition).mp writes
      have only : held = [definition] := single
      subst only
      rw [List.singleton_append, ofDefinitions, Definition.creatable_of_updatable updates,
        updates, later]
      rfl
    | false =>
      have fixed := runs.silent _ List.mem_cons_self rfl
      have apart := (List.isChain_cons.mp runs.apart).1
      rw [ofDefinitions_run_append (runs.nonempty _ List.mem_cons_self), later]
      · intro definition member
        exact ⟨creatable.1 definition member,
          (Factory.writesNoUpdate_iff definition).mp (fixed definition member)⟩
      · intro other more next
        rw [later] at next
        rw [next] at apart
        rcases apart _ rfl with impossible | impossible <;> cases impossible

/-- The groups of a dispatch are runs of the creatable definitions, in schema order, and the only
ones. -/
theorem groups_iff_eq_ofDefinitions (definitions : List Definition) (groups : List DispatchGroup) :
    Groups definitions groups ↔ groups = ofDefinitions definitions := by
  constructor
  · intro grouped
    have creatable : ∀ definition ∈ groups.flatMap members, definition.creatable = true := by
      intro definition member
      rw [grouped.whole] at member
      exact (List.mem_filter.mp member).2
    rw [← grouped.toRuns.ofDefinitions_flatMap creatable, grouped.whole,
      ofDefinitions_filter_creatable]
  · rintro rfl
    exact groups_ofDefinitions definitions

end DispatchGroup

end NodeSmith
