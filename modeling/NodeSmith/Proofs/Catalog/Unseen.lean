import Mathlib.Logic.Relation
import NodeSmith.Generator
import NodeSmith.Proofs.Assoc
import NodeSmith.Proofs.Catalog.Tables
import NodeSmith.Proofs.SourceFile.Values
import NodeSmith.Proofs.SourceFile.Shown

set_option autoImplicit false

namespace NodeSmith

open Outcome
open Text (removeBlanks)

namespace Definition

/-- Definitions that agree in what is generated from them. -/
structure Agrees (first second : Definition) : Prop where
  kind : first.kind = second.kind
  type : first.type = second.type
  name : first.name = second.name
  members : first.members = second.members

/-- Whether a definition as it is written has no kind. One that is white space is none. -/
def kindless (definition : Definition) : Bool :=
  match definition.kind with
  | .text written => (removeBlanks written).isEmpty
  | kind => !kind.present

/-- Edits of a schema that touch only definitions without a kind. Such a definition can be moved,
copied, and replaced by another one of the same type; one without a type can be put in as well,
and so, going back, taken out. -/
inductive Retouches : List Definition → List Definition → Prop
  | move (before between after : List Definition) {definition : Definition}
    (kindless : definition.kindless = true) :
    Retouches (before ++ definition :: between ++ after) (before ++ between ++ definition :: after)
  | copy (before between after : List Definition) {definition : Definition}
    (kindless : definition.kindless = true) :
    Retouches (before ++ definition :: between ++ after)
      (before ++ definition :: between ++ definition :: after)
  | revise (before after : List Definition) {old new : Definition}
    (kindless : old.kindless = true) (remains : new.kindless = true)
    (type : Union.visibleKey old.type = Union.visibleKey new.type) :
    Retouches (before ++ old :: after) (before ++ new :: after)
  | insert (before after : List Definition) {definition : Definition}
    (kindless : definition.kindless = true) (untyped : Union.visibleKey definition.type = none) :
    Retouches (before ++ after) (before ++ definition :: after)

def kinded (definitions : List Definition) : List Definition :=
  definitions.filter fun definition => !definition.kindless

/-- Whether a definition has a type of its own under a key. -/
def Authored (definitions : List Definition) (key : String) : Prop :=
  ∃ definition ∈ definitions, Union.visibleKey definition.type = some key

theorem kinded_eq_of_retouches {firsts seconds : List Definition}
    (retouches : Retouches firsts seconds) : kinded firsts = kinded seconds := by
  cases retouches with
  | move before between after kindless =>
    simp only [kinded, List.filter_append, List.filter_cons, kindless, Bool.not_true,
      Bool.false_eq_true, ↓reduceIte]
  | copy before between after kindless =>
    simp only [kinded, List.filter_append, List.filter_cons, kindless, Bool.not_true,
      Bool.false_eq_true, ↓reduceIte]
  | revise before after kindless remains type =>
    simp only [kinded, List.filter_append, List.filter_cons, kindless, remains, Bool.not_true,
      Bool.false_eq_true, ↓reduceIte]
  | insert before after kindless untyped =>
    simp only [kinded, List.filter_append, List.filter_cons, kindless, Bool.not_true,
      Bool.false_eq_true, ↓reduceIte]

theorem authored_eq_of_retouches {firsts seconds : List Definition}
    (retouches : Retouches firsts seconds) : Authored firsts = Authored seconds := by
  funext key
  rw [eq_iff_iff]
  cases retouches with
  | move before between after kindless =>
    simp only [Authored, List.mem_append, List.mem_cons]
    grind
  | copy before between after kindless =>
    simp only [Authored, List.mem_append, List.mem_cons]
    grind
  | revise before after kindless remains type =>
    simp only [Authored, List.mem_append, List.mem_cons]
    grind
  | insert before after kindless untyped =>
    simp only [Authored, List.mem_append, List.mem_cons]
    grind

theorem Canonizes.creatable_eq {raw shown : Definition} (canonizes : raw.Canonizes shown) :
    shown.creatable = !raw.kindless := by
  have made := canonizes.kind
  unfold creatable kindless
  cases given : raw.kind with
  | text written =>
    rw [given, ruled_tightKind_text] at made
    rw [← Except.ok.inj made, Json.present_text]
  | null | bool | number | list | record =>
    rw [given] at made
    rcases ruled_eq_ok made with ⟨_, impossible, -⟩ | ⟨-, same⟩
    · cases impossible
    · rw [same, Bool.not_not]

theorem canonical_rightUnique :
    Relator.RightUnique fun raw shown : Definition => raw.canonical = .ok shown := by
  intro raw first second made remade
  exact Except.ok.inj (made.symm.trans remade)

/-- The creatable definitions among canonical forms are those of the definitions with a kind. -/
theorem forall₂_kinded {raws shown : List Definition}
    (paired : List.Forall₂ (fun raw shown => raw.canonical = .ok shown) raws shown) :
    List.Forall₂ (fun raw shown => raw.canonical = .ok shown) (kinded raws)
      (shown.filter creatable) := by
  induction paired with
  | nil => exact .nil
  | cons made _ ih =>
    unfold kinded
    rw [List.filter_cons, List.filter_cons, (canonizes_of_canonical_eq_ok made).creatable_eq]
    split
    · exact .cons made ih
    · exact ih

theorem shownOf_eq_of_agrees {firsts seconds : List Definition}
    (agree : List.Forall₂ Agrees (firsts.filter creatable) (seconds.filter creatable)) :
    shownOf firsts = shownOf seconds := by
  unfold shownOf
  generalize firsts.filter creatable = ones at agree
  generalize seconds.filter creatable = others at agree
  induction agree with
  | nil => rfl
  | cons head _ ih =>
    rw [List.map_cons, List.map_cons, ih, shown, head.kind, head.type, head.name, head.members,
      shown]

end Definition

namespace Catalog

variable {definitions others : List Definition} {catalog other : Catalog}

/-- Where the definitions with a kind are the same, so are those that nodes are created from. -/
theorem filter_creatable_congr (first : ofDefinitions definitions = .ok catalog)
    (second : ofDefinitions others = .ok other)
    (same : Definition.kinded definitions = Definition.kinded others) :
    catalog.definitions.filter Definition.creatable =
      other.definitions.filter Definition.creatable := by
  have one := Definition.forall₂_kinded (forall₂_canonical first)
  have another := Definition.forall₂_kinded (forall₂_canonical second)
  rw [same] at one
  exact Definition.canonical_rightUnique.forall₂ one another

theorem mem_keys_types_iff (indexed : ofDefinitions definitions = .ok catalog) (key : String) :
    some key ∈ Assoc.keys catalog.tables.types ↔ Definition.Authored definitions key := by
  have written := (listed_spec (ofDefinitions_eq_ok indexed).1.length_eq).1
  rw [← Assoc.isSome_get?_iff, get?_types indexed, Option.isSome_map, List.getLast?_isSome]
  constructor
  · intro some
    obtain ⟨listed, found⟩ := List.exists_mem_of_ne_nil _ some
    obtain ⟨member, keyed⟩ := List.mem_filter.mp found
    have among := List.mem_map_of_mem (f := Listed.written) member
    rw [written] at among
    exact ⟨listed.written, among, beq_iff_eq.mp keyed⟩
  · rintro ⟨definition, member, keyed⟩
    rw [← written] at member
    obtain ⟨listed, found, rfl⟩ := List.mem_map.mp member
    exact List.ne_nil_of_mem (List.mem_filter.mpr ⟨found, beq_iff_eq.mpr keyed⟩)

theorem isNodeType_congr (same : ∀ key : String, some key ∈ Assoc.keys catalog.tables.types ↔
      some key ∈ Assoc.keys other.tables.types) (type : Json) :
    catalog.tables.isNodeType type = other.tables.isNodeType type := by
  unfold Tables.isNodeType
  split
  · rfl
  · rw [Bool.eq_iff_iff, Assoc.isSome_get?_iff, Assoc.isSome_get?_iff]
    exact same _

end Catalog

namespace Generator

variable {first second : Json} {one other : Catalog}

/-- A file depends on the definitions that nodes can be created from and on which types are
authored. So edits that touch only definitions without a kind, and leave the authored types, are
not seen in it. -/
theorem generate_unseen (firstIndexed : Catalog.ofSchema first = .ok one)
    (secondIndexed : Catalog.ofSchema second = .ok other) (settings : Settings) :
    (List.Forall₂ Definition.Agrees (one.definitions.filter Definition.creatable)
        (other.definitions.filter Definition.creatable) →
      (∀ key : String, some key ∈ Assoc.keys one.tables.types ↔
        some key ∈ Assoc.keys other.tables.types) →
      (generate { schema := first, settings := settings }).1 =
        (generate { schema := second, settings := settings }).1) ∧
    (∀ firsts seconds, Definition.listOfJson first = .ok firsts →
      Definition.listOfJson second = .ok seconds →
      Relation.EqvGen Definition.Retouches firsts seconds →
      (generate { schema := first, settings := settings }).1 =
        (generate { schema := second, settings := settings }).1) := by
  rw [generate_of_indexed firstIndexed, generate_of_indexed secondIndexed]
  constructor
  · intro agree types
    exact SourceFile.text_congr settings (Definition.shownOf_eq_of_agrees agree)
      (Catalog.isNodeType_congr types)
  · intro firsts seconds firstRead secondRead retouched
    obtain ⟨raws, read, firstMade⟩ := Catalog.ofSchema_eq_ok firstIndexed
    obtain ⟨others, reread, secondMade⟩ := Catalog.ofSchema_eq_ok secondIndexed
    rw [read] at firstRead
    rw [reread] at secondRead
    cases firstRead
    cases secondRead
    have kinded := congrArg (Quot.lift Definition.kinded fun _ _ =>
      Definition.kinded_eq_of_retouches) (Quot.eqvGen_sound retouched)
    have authored := congrArg (Quot.lift Definition.Authored fun _ _ =>
      Definition.authored_eq_of_retouches) (Quot.eqvGen_sound retouched)
    apply SourceFile.text_congr settings
    · rw [Definition.shownOf, Catalog.filter_creatable_congr firstMade secondMade kinded,
        Definition.shownOf]
    · apply Catalog.isNodeType_congr
      intro key
      rw [Catalog.mem_keys_types_iff firstMade, Catalog.mem_keys_types_iff secondMade]
      exact iff_of_eq (congrFun authored key)

/-- A node that can be updated, with a base type, among other records. -/
def sampleAmong (front : List Json) (baseType : Json) (back : List Json) : Json :=
  .list (front ++ .record [("kind", .text "Identifier"), ("type", .text "Identifier"),
    ("baseType", baseType),
    ("children", .list [.record [("name", .text "text"), ("type", .text "Expression")]])] :: back)

def sampleType : Json := .record [("type", .text "Expression"), ("name", .text "Any")]

def sampleRetyped : Json :=
  .record [("type", .text " Expression"), ("children", .list [.record [("name", .text "x")]])]

theorem generate_sample_unseen :
    (generate { schema := sampleAmong [] .null [sampleType] }).1 =
        (generate { schema := sampleAmong [sampleType] (.text "Node") [] }).1 ∧
      (generate { schema := sampleAmong [] .null [sampleType] }).1 =
        (generate { schema := sampleAmong [sampleRetyped] .null [sampleRetyped] }).1 := by
  have made : ∃ catalog, Catalog.ofSchema (sampleAmong [] .null [sampleType]) = .ok catalog ∧
      catalog.definitions.filter Definition.creatable = [{
        kind := .text "Identifier", type := .text "Identifier", name := .text "Identifier",
        members := some [{
          name := .text "text", param := .text "text", type := .text "Expression" }] }] ∧
      Assoc.keys catalog.tables.types = [some "Identifier", some "Expression"] :=
    ⟨_, by cbv, rfl, rfl⟩
  have based : ∃ catalog,
      Catalog.ofSchema (sampleAmong [sampleType] (.text "Node") []) = .ok catalog ∧
      catalog.definitions.filter Definition.creatable = [{
        kind := .text "Identifier", type := .text "Identifier", name := .text "Identifier",
        baseType := .text "Node",
        members := some [{
          name := .text "text", param := .text "text", type := .text "Expression" }] }] ∧
      Assoc.keys catalog.tables.types = [some "Expression", some "Identifier"] :=
    ⟨_, by cbv, rfl, rfl⟩
  have copied : ∃ catalog,
      Catalog.ofSchema (sampleAmong [sampleRetyped] .null [sampleRetyped]) = .ok catalog :=
    ⟨_, by cbv⟩
  obtain ⟨one, oneIndexed, oneShown, oneKeys⟩ := made
  obtain ⟨other, otherIndexed, otherShown, otherKeys⟩ := based
  obtain ⟨another, anotherIndexed⟩ := copied
  constructor
  · apply (generate_unseen oneIndexed otherIndexed {}).1
    · rw [oneShown, otherShown]
      exact .cons ⟨rfl, rfl, rfl, rfl⟩ .nil
    · intro key
      rw [oneKeys, otherKeys]
      exact (List.Perm.swap _ _ _).mem_iff
  · let identifier : Definition :=
      { kind := .text "Identifier", type := .text "Identifier",
        members := some [{ name := .text "text", type := .text "Expression" }] }
    let old : Definition := { type := .text "Expression", name := .text "Any" }
    let new : Definition :=
      { type := .text " Expression", members := some [{ name := .text "x" }] }
    -- The type is replaced by the other, which moves to the front and is copied behind.
    have revised : Definition.Retouches [identifier, old] [identifier, new] :=
      .revise [identifier] [] rfl rfl (by cbv)
    have moved : Definition.Retouches [new, identifier] [identifier, new] :=
      .move [] [identifier] [] rfl
    have copied : Definition.Retouches [new, identifier] [new, identifier, new] :=
      .copy [] [identifier] [] rfl
    apply (generate_unseen oneIndexed anotherIndexed {}).2 [identifier, old]
      [new, identifier, new] (by cbv) (by cbv)
    exact .trans _ _ _ (.rel _ _ revised)
      (.trans _ _ _ (.symm _ _ (.rel _ _ moved)) (.rel _ _ copied))

end Generator

end NodeSmith
