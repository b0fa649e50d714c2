import Mathlib
import NodeSmith.Proofs.Assoc
import NodeSmith.Proofs.Catalog.Canonical
import NodeSmith.Proofs.Outcome
import NodeSmith.Proofs.SourceFile.Shown
import NodeSmith.Proofs.Union.Spelling
import NodeSmith.Generator

set_option autoImplicit false

namespace NodeSmith

open Outcome Text
open Definition (shownOf)

namespace Json

/-- Records with related fields, or equal values. -/
inductive Records (related : List (String × Json) → List (String × Json) → Prop) :
    Json → Json → Prop
  | same (value : Json) : Records related value value
  | record {first second : List (String × Json)} (pair : related first second) :
    Records related (.record first) (.record second)

/-- Lists with related items, or equal values. -/
inductive Lists (related : Json → Json → Prop) : Json → Json → Prop
  | same (value : Json) : Lists related value value
  | list {firsts seconds : List Json} (pairs : List.Forall₂ related firsts seconds) :
    Lists related (.list firsts) (.list seconds)

end Json

/-- Kinds that differ at most by white space. -/
inductive Definition.SameKind : Json → Json → Prop
  | same (value : Json) : SameKind value value
  | text {first second : String} (tight : removeBlanks first = removeBlanks second) :
    SameKind (.text first) (.text second)

/-- Fields of a member, spelled in two ways. -/
structure Member.Respells (first second : List (String × Json)) : Prop where
  name : Union.Renames (Json.field first "name") (Json.field second "name")
  param : Union.Renames (Json.field first "paramName") (Json.field second "paramName")
  type : Union.keyOf (Json.field first "type") = Union.keyOf (Json.field second "type")
  others : ∀ name ∈ ["isNodeArray", "isModifiersArray", "optional", "converter", "readonly"],
    Json.field first name = Json.field second name

/-- Fields of a definition, spelled in two ways. -/
structure Definition.Respells (first second : List (String × Json)) : Prop where
  kind : SameKind (Json.field first "kind") (Json.field second "kind")
  type : Union.keyOf (Json.field first "type") = Union.keyOf (Json.field second "type")
  types : Union.keyOf (Json.field first "types") = Union.keyOf (Json.field second "types")
  baseType : Union.keyOf (Json.field first "baseType") = Union.keyOf (Json.field second "baseType")
  name : Union.Renames (Json.field first "name") (Json.field second "name")
  children : Json.Lists (Json.Records Member.Respells) (Json.field first "children")
    (Json.field second "children")

/-- Schemas that spell the same definitions. -/
abbrev Schema.Respells : Json → Json → Prop := Json.Lists (Json.Records Definition.Respells)

structure Member.Similar (first second : Member) : Prop where
  name : Union.Renames first.name second.name
  param : Union.Renames first.param second.param
  type : Union.keyOf first.type = Union.keyOf second.type
  others : second = { first with name := second.name, param := second.param, type := second.type }

structure Definition.Similar (first second : Definition) : Prop where
  kind : SameKind first.kind second.kind
  type : Union.keyOf first.type = Union.keyOf second.type
  types : Union.keyOf first.types = Union.keyOf second.types
  baseType : Union.keyOf first.baseType = Union.keyOf second.baseType
  name : Union.Renames first.name second.name
  members : Option.Rel (List.Forall₂ Member.Similar) first.members second.members

namespace Member

theorem Similar.refl (member : Member) : member.Similar member :=
  ⟨.same _, .same _, rfl, rfl⟩

theorem similar_self (members : Option (List Member)) :
    Option.Rel (List.Forall₂ Similar) members members := by
  cases members with
  | none => exact .none
  | some members => exact .some (List.forall₂_same.mpr fun member _ => Similar.refl member)

theorem ofJson_alike {first second : Json} (records : Json.Records Respells first second) :
    Alike Similar (ofJson first) (ofJson second) := by
  cases records with
  | same value => exact .refl Similar.refl _
  | @record first second respells =>
    refine .ok ⟨respells.name, respells.param, respells.type, ?_⟩
    have nodeArray := respells.others "isNodeArray" (by decide)
    have modifiersArray := respells.others "isModifiersArray" (by decide)
    have optional := respells.others "optional" (by decide)
    have converter := respells.others "converter" (by decide)
    have readOnly := respells.others "readonly" (by decide)
    rw [nodeArray, modifiersArray, optional, converter, readOnly]

theorem listOfJson_alike {first second : Json}
    (lists : Json.Lists (Json.Records Respells) first second) :
    Alike (Option.Rel (List.Forall₂ Similar)) (listOfJson first) (listOfJson second) := by
  cases lists with
  | same value => exact .refl similar_self _
  | list pairs =>
    rename_i firsts seconds
    change Alike _ (firsts.mapM ofJson >>= fun members => .ok (some members))
      (seconds.mapM ofJson >>= fun members => .ok (some members))
    exact .bind (.mapM pairs fun _ _ => ofJson_alike) fun _ _ each => .ok (.some each)

theorem canonical_congr {first second : Member} (similar : first.Similar second) :
    first.canonical = second.canonical := by
  have same := similar.others
  rw [canonical, canonical, similar.name.identifierOf_eq, similar.param.present_eq,
    similar.param.identifierOf_eq, Union.canonicalOf_congr similar.type]
  rw [same]

end Member

namespace Definition

theorem Similar.refl (definition : Definition) : definition.Similar definition :=
  ⟨.same _, rfl, rfl, rfl, .same _, Member.similar_self definition.members⟩

theorem ofJson_alike {first second : Json} (records : Json.Records Respells first second) :
    Alike Similar (ofJson first) (ofJson second) := by
  cases records with
  | same value => exact .refl Similar.refl _
  | @record first second respells =>
    have fields : Alike Respells (Json.record first).asRecord (Json.record second).asRecord :=
      .ok respells
    apply fields.bind
    intro one other respells
    apply (Member.listOfJson_alike respells.children).bind
    intro firsts seconds members
    exact .ok ⟨respells.kind, respells.type, respells.types, respells.baseType, respells.name,
      members⟩

theorem listOfJson_alike {first second : Json} (respells : Schema.Respells first second) :
    Alike (List.Forall₂ Similar) (listOfJson first) (listOfJson second) := by
  cases respells with
  | same value =>
    exact .refl (fun _ => List.forall₂_same.mpr fun definition _ => Similar.refl definition) _
  | list pairs => exact .mapM pairs fun _ _ => ofJson_alike

theorem SameKind.ruled_eq {first second : Json} (same : SameKind first second) :
    ruled tightKind first = ruled tightKind second := by
  cases same with
  | same value => rfl
  | @text first second tight => rw [ruled_tightKind_text, ruled_tightKind_text, tight]

theorem ruled_canonicalOf_alike {first second : Json}
    (same : Union.keyOf first = Union.keyOf second) :
    Alike (fun _ _ => True) (ruled Union.canonicalOf first) (ruled Union.canonicalOf second) := by
  rw [ruled, ruled, Union.present_congr same, Union.canonicalOf_congr same]
  split
  · exact .refl (fun _ => trivial) _
  · exact .ok trivial

theorem keyOf_orElse {first second other another : Json}
    (same : Union.keyOf first = Union.keyOf second)
    (others : Union.keyOf other = Union.keyOf another) :
    Union.keyOf (first.orElse other) = Union.keyOf (second.orElse another) := by
  rw [Json.orElse, Json.orElse, Union.present_congr same]
  split
  · exact same
  · exact others

theorem members_eq {first second : Definition} (similar : first.Similar second) :
    first.members.mapM (fun members => members.mapM Member.canonical) =
      second.members.mapM fun members => members.mapM Member.canonical := by
  have paired := similar.members
  generalize first.members = firsts at paired
  generalize second.members = seconds at paired
  cases paired with
  | none => rfl
  | @some firsts seconds each =>
    have alike : Alike (List.Forall₂ Eq) (firsts.mapM Member.canonical)
        (seconds.mapM Member.canonical) :=
      .mapM each fun _ _ similar => .of_eq (Member.canonical_congr similar)
    have same : firsts.mapM Member.canonical = seconds.mapM Member.canonical := by
      rw [List.forall₂_eq_eq_eq] at alike
      exact alike.eq
    change some <$> firsts.mapM Member.canonical = some <$> seconds.mapM Member.canonical
    rw [same]

/-- Similar definitions fail alike, or have canonical forms that show the same. -/
theorem canonical_alike {first second : Definition} (similar : first.Similar second) :
    Alike (fun one other => one.shown = other.shown) first.canonical second.canonical := by
  have type := keyOf_orElse similar.type (keyOf_orElse similar.types similar.baseType)
  have named (kind : Json) (type : Option String) :
      Union.identifierOf (first.name.orElse (kind.orElse (.ofText? type))) =
        Union.identifierOf (second.name.orElse (kind.orElse (.ofText? type))) := by
    simp only [Json.orElse, similar.name.present_eq]
    split
    · exact similar.name.identifierOf_eq
    · rfl
  unfold canonical
  rw [similar.kind.ruled_eq, Union.canonicalOf_congr type, members_eq similar]
  apply Alike.bind_same
  intro kind
  apply Alike.bind_same
  intro type
  apply (ruled_canonicalOf_alike similar.types).bind
  intro types otherTypes _
  apply (ruled_canonicalOf_alike similar.baseType).bind
  intro baseType otherBase _
  rw [named kind type]
  apply Alike.bind_same
  intro name
  apply Alike.bind_same
  intro members
  exact .ok rfl

end Definition

namespace Tables

/-- Tables that know the same kinds and the same types, in the same order. -/
structure SameKeys (first second : Tables) : Prop where
  kinds : Assoc.keys first.kinds = Assoc.keys second.kinds
  types : Assoc.keys first.types = Assoc.keys second.types

variable {first second : Tables} {entry other : Entry}

theorem addKind_sameKeys (same : first.SameKeys second)
    (kind : entry.definition.kind = other.definition.kind) :
    (first.addKind entry).SameKeys (second.addKind other) := by
  unfold addKind
  rw [kind]
  split
  · split
    · exact same
    · refine ⟨?_, same.types⟩
      rw [Assoc.keys_insert, same.kinds, Assoc.keys_insert]
  · exact same

theorem addType_sameKeys (same : first.SameKeys second)
    (type : entry.definition.type = other.definition.type) :
    (first.addType entry).SameKeys (second.addType other) := by
  refine ⟨same.kinds, ?_⟩
  rw [addType, addType, type]
  dsimp only
  rw [Assoc.keys_insert, same.types, Assoc.keys_insert]

theorem addSubtype_sameKeys (tables : Tables) (entry : Entry) :
    (tables.addSubtype entry).SameKeys tables := by
  unfold addSubtype
  split <;> exact ⟨rfl, rfl⟩

theorem add_sameKeys (same : first.SameKeys second) (authored : Bool)
    (shown : entry.definition.shown = other.definition.shown) :
    (first.add authored entry).SameKeys (second.add authored other) := by
  have kind : entry.definition.shown.kind = other.definition.shown.kind := by rw [shown]
  have type : entry.definition.shown.type = other.definition.shown.type := by rw [shown]
  have registered : SameKeys
      (if authored then (first.addKind entry).addType entry else first.addKind entry)
      (if authored then (second.addKind other).addType other else second.addKind other) := by
    have kinds := addKind_sameKeys same kind
    cases authored with
    | false => exact kinds
    | true => exact addType_sameKeys kinds type
  have one := addSubtype_sameKeys
    (if authored then (first.addKind entry).addType entry else first.addKind entry) entry
  have another := addSubtype_sameKeys
    (if authored then (second.addKind other).addType other else second.addKind other) other
  exact ⟨one.kinds.trans (registered.kinds.trans another.kinds.symm),
    one.types.trans (registered.types.trans another.types.symm)⟩

theorem addAll_sameKeys {firsts seconds : List Definition} {marks : List Bool} {position : Nat}
    (same : first.SameKeys second)
    (shown : List.Forall₂ (fun one other : Definition => one.shown = other.shown) firsts seconds) :
    (first.addAll position (marks.zip firsts)).SameKeys
      (second.addAll position (marks.zip seconds)) := by
  induction shown generalizing first second marks position with
  | nil =>
    rw [List.zip_nil_right]
    exact same
  | cons head _ ih =>
    cases marks with
    | nil => exact same
    | cons mark marks => exact ih (add_sameKeys same mark head)

/-- Whether a type is known depends on the keys only. -/
theorem isNodeType_congr (same : first.SameKeys second) (type : Json) :
    first.isNodeType type = second.isNodeType type := by
  unfold isNodeType
  split
  · rfl
  · rw [Assoc.isSome_get?, Assoc.isSome_get?, same.types]

end Tables

/-- Catalogs that show the same definitions, and know the same kinds and types. -/
structure Catalog.Similar (first second : Catalog) : Prop where
  definitions : List.Forall₂ (fun one other : Definition => one.shown = other.shown)
    first.definitions second.definitions
  tables : first.tables.SameKeys second.tables

theorem Catalog.ofSchema_alike {first second : Json} (respells : Schema.Respells first second) :
    Alike Similar (ofSchema first) (ofSchema second) := by
  apply (Definition.listOfJson_alike respells).bind
  intro firsts seconds similar
  have authored : firsts.map (fun raw => raw.type.present) =
      seconds.map fun raw => raw.type.present := by
    induction similar with
    | nil => rfl
    | cons head _ ih => rw [List.map_cons, List.map_cons, ih, Union.present_congr head.type]
  apply (Alike.mapM similar fun _ _ => Definition.canonical_alike).bind
  intro ones others shown
  rw [authored]
  exact .ok ⟨shown, Tables.addAll_sameKeys ⟨rfl, rfl⟩ shown⟩

theorem Catalog.Similar.shownOf_eq {first second : Catalog} (similar : first.Similar second) :
    shownOf first.definitions = shownOf second.definitions := by
  have paired := similar.definitions
  generalize first.definitions = firsts at paired ⊢
  generalize second.definitions = seconds at paired ⊢
  induction paired with
  | nil => rfl
  | @cons one other ones others head _ ih =>
    have kind : one.shown.kind = other.shown.kind := by rw [head]
    have creatable : one.creatable = other.creatable := congrArg Json.present kind
    rw [shownOf, List.filter_cons, creatable, shownOf, List.filter_cons]
    split
    · rw [List.map_cons, List.map_cons, head, ← shownOf, ih, shownOf]
    · exact ih

/-- Schemas that spell the same definitions generate the same file under any settings, or fail
alike, and leave tables of the same kinds. -/
theorem Generator.generate_respelled {first second : Json}
    (respells : Schema.Respells first second) (settings : Settings) :
    (generate { schema := first, settings := settings }).1 =
        (generate { schema := second, settings := settings }).1 ∧
      (generate { schema := first, settings := settings }).2.tables.map
          (fun tables => Assoc.keys tables.kinds) =
        (generate { schema := second, settings := settings }).2.tables.map
          fun tables => Assoc.keys tables.kinds := by
  have alike := Catalog.ofSchema_alike respells
  unfold generate
  dsimp only
  generalize Catalog.ofSchema first = one at alike
  generalize Catalog.ofSchema second = other at alike
  cases alike with
  | error fault => exact ⟨rfl, rfl⟩
  | ok similar =>
    refine ⟨?_, congrArg some similar.tables.kinds⟩
    exact SourceFile.text_congr settings similar.shownOf_eq
      (Tables.isNodeType_congr similar.tables)

theorem Generator.generate_leaf_respelled :
    (generate { schema := .list [.record [("kind", .text "Leaf"), ("type", .text "B|A"),
      ("name", .text "X|Y"), ("children", .list [.record [("name", .text "x")]])]] }).1 =
    (generate { schema := .list [.record [("kind", .text " Le af"), ("type", .text "A | B"),
      ("name", .text "X |Y"), ("children", .list [.record [("name", .text "x")]])]] }).1 := by
  have key : Union.keyOf (.text "B|A") = Union.keyOf (.text "A | B") := by cbv
  have respaced : Union.Respaced "X|Y" "X |Y" := .symm _ _ (.rel _ _ (.before ['X'] ['Y'] ' ' rfl))
  have tight : removeBlanks "Leaf" = removeBlanks " Le af" := by decide
  refine (generate_respelled ?_ {}).1
  exact .list (.cons (.record ⟨.text tight, key, rfl, rfl, .text respaced, .same _⟩) .nil)

end NodeSmith
