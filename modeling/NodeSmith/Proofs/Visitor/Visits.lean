import Mathlib.Data.List.Forall2
import NodeSmith.Proofs.Catalog.Faults
import NodeSmith.Proofs.Catalog.Unseen
import NodeSmith.Proofs.Union.Separators
import NodeSmith.Proofs.Visitor.Labels

set_option autoImplicit false

namespace NodeSmith

open Layout (Code)
open Outcome
open Text (Visible)

namespace Schema

/-- Whether a definition of a schema has a type of its own with the members of a text. -/
def Authors (schema : Json) (text : String) : Prop :=
  ∃ record ∈ schema.walked, (record.entry "type").present = true ∧
    Union.spells text (record.entry "type") = true

/-- Whether the type of a child can be seen and is one that a definition has of its own. -/
def Visits (schema child : Json) : Prop :=
  ∃ text, child.entry "type" = .text text ∧ Visible text ∧ Authors schema text

/-- The children of a record that an update can change. -/
def mutableChildren (record : Json) : List Json :=
  (record.entry "children").walked.filter fun child => !(child.entry "readonly").present

theorem entries_of_member {child : Json} {member : Member}
    (read : Member.ofJson child = .ok member) :
    member.name = child.entry "name" ∧ member.type = child.entry "type" ∧
      member.nodeArray = (child.entry "isNodeArray").present ∧
      member.readOnly = (child.entry "readonly").present := by
  cases child with
  | record fields =>
    have same := Except.ok.inj read
    subst same
    exact ⟨rfl, rfl, rfl, rfl⟩
  | null | bool | number | text | list => cases read

theorem entries_of_definition {record : Json} {definition : Definition}
    (read : Definition.ofJson record = .ok definition) :
    definition.type = record.entry "type" ∧
      Member.listOfJson (record.entry "children") = .ok definition.members := by
  cases record with
  | record fields =>
    obtain ⟨_, same, read⟩ := bind_eq_ok.mp read
    cases same
    obtain ⟨members, listed, read⟩ := bind_eq_ok.mp read
    have same := pure_eq_ok.mp read
    subst same
    exact ⟨rfl, listed⟩
  | null | bool | number | text | list => cases read

theorem forall₂_definitions {schema : Json} {definitions : List Definition}
    (read : Definition.listOfJson schema = .ok definitions) :
    List.Forall₂ (fun record definition => Definition.ofJson record = .ok definition)
      schema.walked definitions := by
  obtain ⟨records, walked, read⟩ := bind_eq_ok.mp read
  rw [Json.walked_of_items walked]
  exact forall₂_of_mapM_eq_ok read

theorem authors_iff {schema : Json} {definitions : List Definition}
    (read : Definition.listOfJson schema = .ok definitions) (text : String) :
    Authors schema text ↔ ∃ definition ∈ definitions, definition.hasType text = true := by
  have each (record : Json) (definition : Definition)
      (read : Definition.ofJson record = .ok definition) : definition.hasType text = true ↔
        (record.entry "type").present = true ∧ Union.spells text (record.entry "type") = true := by
    rw [Definition.hasType, (entries_of_definition read).1, Bool.and_eq_true]
  exact (exists_iff_of_forall₂ (forall₂_definitions read) each).symm

theorem forall₂_mutableMembers {record : Json} {definition shown : Definition}
    (read : Definition.ofJson record = .ok definition) (canonizes : definition.Canonizes shown) :
    List.Forall₂ (fun child member => ∃ raw, Member.ofJson child = .ok raw ∧ raw.Canonizes member)
      (mutableChildren record) shown.mutableMembers := by
  have members : List.Forall₂ Member.Canonizes definition.memberList shown.memberList :=
    canonizes.forall₂_memberList
  have children := forall₂_members (entries_of_definition read).2
  have joined : List.Forall₂ (fun child member => ∃ raw, Member.ofJson child = .ok raw ∧
      raw.Canonizes member) (record.entry "children").walked shown.memberList :=
    forall₂_trans children members fun child raw member _ read canonizes => ⟨raw, read, canonizes⟩
  apply List.rel_filter _ joined
  rintro child member ⟨raw, read, canonizes⟩
  have kept : member.readOnly = raw.readOnly := by rw [canonizes.flags]
  dsimp only
  rw [kept, (entries_of_member read).2.2.2]

end Schema

/-- Among the types of a catalog is one in canonical form exactly if it is made from a text with a
visible character and a definition has a type of its own with the same members. -/
theorem Catalog.isNodeType_iff {definitions : List Definition} {catalog : Catalog}
    (indexed : ofDefinitions definitions = .ok catalog) {value : Json} {type : Option String}
    (made : Union.canonicalOf value = .ok type) :
    catalog.tables.isNodeType (.ofText? type) = true ↔ ∃ text, value = .text text ∧
      Visible text ∧ ∃ definition ∈ definitions, definition.hasType text = true := by
  have known : catalog.tables.isNodeType (.ofText? type) = true ↔
      ∃ key, Union.visibleKey value = some key ∧ Definition.Authored definitions key := by
    rw [Tables.isNodeType, Union.keyOfCanonical_of_canonicalOf made]
    cases Union.visibleKey value with
    | none => simp only [Bool.false_eq_true, reduceCtorEq, false_and, exists_false]
    | some key =>
      simp only [Option.some.injEq, exists_eq_left', ← mem_keys_types_iff indexed,
        Assoc.isSome_get?_iff]
  rw [known]
  constructor
  · rintro ⟨key, keyed, definition, member, same⟩
    obtain ⟨text, rfl, visible, rfl⟩ := Union.visibleKey_eq_some_iff_exists.mp keyed
    refine ⟨text, rfl, visible, definition, member, ?_⟩
    rw [← Definition.visibleKey_type_eq visible, same, beq_self_eq_true]
  · rintro ⟨text, rfl, visible, definition, member, typed⟩
    rw [← Definition.visibleKey_type_eq visible, beq_iff_eq] at typed
    have keyed := Union.visibleKey_eq_some_iff_exists.mpr ⟨text, rfl, visible, rfl⟩
    exact ⟨Union.key text, keyed, definition, member, typed⟩

namespace Visitor

def oldValue (definition : Definition) (name : Option String) : String :=
  "(<" ++ definition.type.display ++ ">node)." ++ (Json.ofText? name).display

/-- The call that visits a value of a type, or an array of such values. -/
def visitCall (array : Bool) (type value : String) : String :=
  (if array then "visitNodes" else "visit") ++ "<" ++ type ++ ">(" ++ value ++ ", cbNode, state)"

/-- The case that rebuilds a node from values of its fields. The old node and the values are passed
on lines of their own, with a comma after each but the last, which closes the call. -/
def rebuildCase (settings : Settings) (definition : Definition) (values : List String) :
    List Code :=
  let arguments := ("<" ++ definition.type.display ++ ">node") :: values
  [.line ("case SyntaxKind." ++ definition.kind.display ++ ":"),
    .nested [
      .line ("return " ++ settings.factoryModule.display ++ ".update" ++ definition.name.display ++
        "("),
      .nested (arguments.dropLast.map (fun argument => .line (argument ++ ",")) ++
        [.line (arguments.getLast (List.cons_ne_nil _ _) ++ ");")])]]

/-- What is passed for a child of the schema: the old value of its field, inside a call that visits
it exactly if its type is one that a definition has of its own. The call is by the sort of the
child, and names its type with the members in order. -/
structure Passes (schema child : Json) (value argument : String) : Prop where
  visits_iff : argument ≠ value ↔ Schema.Visits schema child
  call : argument ≠ value → ∃ text, child.entry "type" = .text text ∧
    argument = visitCall (child.entry "isNodeArray").present
      (" | ".intercalate (Union.sorted (Union.tightSegments text))) value

theorem Passes.eq_of_not_visits {schema child : Json} {value argument : String}
    (passes : Passes schema child value argument) (foreign : ¬Schema.Visits schema child) :
    argument = value := by
  by_contra other
  exact foreign (passes.visits_iff.mp other)

theorem visitCall_ne (array : Bool) (type value : String) : visitCall array type value ≠ value := by
  intro same
  have lengths := congrArg String.length same
  have closing : ", cbNode, state)".length = 16 := rfl
  rw [visitCall, String.length_append, String.length_append, closing] at lengths
  omega

variable {schema : Json} {catalog : Catalog} {definitions : List Definition}

/-- A member is visited if it has the type of a definition. -/
theorem passes_visitedArgument (read : Definition.listOfJson schema = .ok definitions)
    (indexed : Catalog.ofDefinitions definitions = .ok catalog) (shown : Definition)
    {child : Json} {raw member : Member} (parsed : Member.ofJson child = .ok raw)
    (canonizes : raw.Canonizes member) :
    ∃ name, Union.identifierOf (child.entry "name") = .ok name ∧
      Passes schema child (oldValue shown name) (visitedArgument catalog.tables shown member) := by
  obtain ⟨name, named, sameName⟩ := canonizes.name
  obtain ⟨type, typed, sameType⟩ := canonizes.type
  obtain ⟨nameEntry, typeEntry, arrayEntry, -⟩ := Schema.entries_of_member parsed
  have array : member.nodeArray = (child.entry "isNodeArray").present := by
    rw [canonizes.flags, arrayEntry]
  have visits : catalog.tables.isNodeType member.type = true ↔ Schema.Visits schema child := by
    rw [sameType, Catalog.isNodeType_iff indexed typed, typeEntry, Schema.Visits]
    simp only [Schema.authors_iff read]
  have argument : visitedArgument catalog.tables shown member =
      if catalog.tables.isNodeType member.type then
        visitCall member.nodeArray member.type.display (oldValue shown name)
      else oldValue shown name := by
    rw [oldValue, ← sameName]
    rfl
  refine ⟨name, nameEntry ▸ named, ?_⟩
  rw [argument, array]
  by_cases known : catalog.tables.isNodeType member.type = true
  · rw [if_pos known]
    refine ⟨⟨fun _ => visits.mp known, fun _ => visitCall_ne _ _ _⟩, fun _ => ?_⟩
    obtain ⟨text, written, visible, -⟩ := visits.mp known
    rw [typeEntry, written, Union.canonicalOf_visible visible] at typed
    refine ⟨text, written, ?_⟩
    rw [sameType, ← Except.ok.inj typed]
    rfl
  · rw [if_neg known]
    exact ⟨⟨fun other => absurd rfl other, fun visited => absurd (visits.mpr visited) known⟩,
      fun other => absurd rfl other⟩

theorem commaLines_cons (closing first : String) (rest : List String) :
    commaLines closing (first :: rest) =
      (first :: rest).dropLast.map (fun argument => Code.line (argument ++ ",")) ++
        [.line ((first :: rest).getLast (List.cons_ne_nil _ _) ++ closing)] := by
  induction rest generalizing first with
  | nil => rfl
  | cons second rest ih =>
    rw [commaLines, ih, List.dropLast_cons_cons, List.map_cons, List.cons_append,
      List.getLast_cons (List.cons_ne_nil _ _)]
    exact nofun

theorem rebuild_eq (settings : Settings) (tables : Tables) (definition : Definition) :
    [label definition, .nested (rebuild settings tables definition)] =
      rebuildCase settings definition
        (definition.mutableMembers.map (visitedArgument tables definition)) := by
  rw [rebuild, rebuildArguments, commaLines_cons]
  rfl

/-- An updatable definition has a case of its own. -/
theorem rebuildCase_infix_switchOf (settings : Settings) {shown : Definition}
    (listed : shown ∈ catalog.definitions) (updates : shown.updatable = true) :
    rebuildCase settings shown
        (shown.mutableMembers.map (visitedArgument catalog.tables shown)) <:+:
      switchOf (accept settings catalog) := by
  have kept : shown ∈ (DispatchGroup.ofDefinitions catalog.definitions).flatMap
      DispatchGroup.members := by
    rw [DispatchGroup.flatMap_members]
    exact List.mem_filter.mpr ⟨listed, Definition.creatable_of_updatable updates⟩
  obtain ⟨group, found, member⟩ := List.mem_flatMap.mp kept
  obtain ⟨same, alone⟩ := DispatchGroup.uniform_of_mem_ofDefinitions _ group found shown member
  have own : cases settings catalog.tables group =
      [label shown, .nested (rebuild settings catalog.tables shown)] := by
    rw [cases, body, same, updates, alone updates]
    rfl
  rw [← rebuild_eq, switchOf_accept, ← own, List.flatMap_def]
  exact List.infix_of_mem_flatten (List.mem_map_of_mem found)

/-- In the case of each definition that can be updated, the old values of its fields are passed on
in the order of its children, and the children say which of them are visited. -/
theorem accept_visits (settings : Settings) (indexed : Catalog.ofSchema schema = .ok catalog) :
    List.Forall₂ (fun record shown =>
        shown.creatable = true → Schema.mutableChildren record ≠ [] →
          ∃ values, rebuildCase settings shown values <:+: switchOf (accept settings catalog) ∧
            List.Forall₂ (fun child argument =>
                ∃ name, Union.identifierOf (child.entry "name") = .ok name ∧
                  Passes schema child (oldValue shown name) argument)
              (Schema.mutableChildren record) values)
      schema.walked catalog.definitions := by
  obtain ⟨definitions, read, made⟩ := Catalog.ofSchema_eq_ok indexed
  have canonical := (Catalog.ofDefinitions_eq_ok made).1
  refine forall₂_trans (Schema.forall₂_definitions read) canonical ?_
  intro record definition shown listed parsed canonizes creatable some
  have members := Schema.forall₂_mutableMembers parsed canonizes
  have updates : shown.updatable = true := by
    rw [Definition.updatable, creatable, Bool.true_and, Bool.not_eq_true',
      List.isEmpty_eq_false_iff]
    intro none
    rw [none, List.forall₂_nil_right_iff] at members
    exact some members
  refine ⟨_, rebuildCase_infix_switchOf settings listed updates, ?_⟩
  rw [List.forall₂_map_right_iff]
  refine members.imp ?_
  rintro child member ⟨raw, parsed, canonizes⟩
  exact passes_visitedArgument read made shown parsed canonizes

/-- An array of a type that a later definition spells in another way, a field of a type that is only
the union of a definition, and a field whose type is white space. -/
def sampleChildren : List Json := [
  .record [("name", .text "all"), ("type", .text "B | A"), ("isNodeArray", .bool true),
    ("isModifiersArray", .bool true)],
  .record [("name", .text "any"), ("type", .text "C|D")],
  .record [("name", .text "void"), ("type", .text " ")]]

def sampleTypes : Json := .list [
  .record [("types", .text "D|C"), ("name", .text "Any")],
  .record [("kind", .text "If"), ("type", .text "If"), ("children", .list sampleChildren)],
  .record [("type", .text "A|B")]]

def sampleIf : Definition :=
  { kind := .text "If", type := .text "If", name := .text "If",
    members := some [
      { name := .text "all", param := .text "all", type := .text "A | B", nodeArray := true,
        modifiersArray := true },
      { name := .text "any", param := .text "any", type := .text "C | D" },
      { name := .text "void", param := .text "void" }] }

def sampleTypesCatalog : Catalog :=
  let both : Definition := { type := .text "A | B", name := .text "AOrB" }
  { definitions := [
      { type := .text "C | D", types := .text "C | D", name := .text "Any" }, sampleIf, both]
    tables := {
      kinds := [("If", ⟨1, sampleIf⟩)]
      types := [(some "If", ⟨1, sampleIf⟩), (some "A|B", ⟨2, both⟩)] } }

theorem ofSchema_sampleTypes : Catalog.ofSchema sampleTypes = .ok sampleTypesCatalog := by
  cbv

theorem sample_accept_visits : Catalog.ofSchema sampleTypes = .ok sampleTypesCatalog ∧
    [.line "case SyntaxKind.If:",
      .nested [
        .line "return Factory.updateIf(",
        .nested [
          .line "<If>node,",
          .line "visitNodes<A | B>((<If>node).all, cbNode, state),",
          .line "(<If>node).any,",
          .line "(<If>node).void);"]]] <:+: switchOf (accept {} sampleTypesCatalog) := by
  refine ⟨ofSchema_sampleTypes, ?_⟩
  have records := accept_visits {} ofSchema_sampleTypes
  obtain ⟨-, records⟩ := List.forall₂_cons.mp records
  have children : Schema.mutableChildren (.record [("kind", .text "If"), ("type", .text "If"),
      ("children", .list sampleChildren)]) = sampleChildren := by cbv
  have passed := (List.forall₂_cons.mp records).1 rfl
  rw [children] at passed
  obtain ⟨values, placed, passed⟩ := passed (List.cons_ne_nil _ _)
  have known : Schema.Authors sampleTypes "B | A" :=
    ⟨_, .tail _ (.tail _ (.head _)), rfl, by cbv⟩
  have derived : ¬Schema.Authors sampleTypes "C|D" := by
    rintro ⟨record, listed, -, spelled⟩
    have none : sampleTypes.walked.any (fun record =>
        Union.spells "C|D" (record.entry "type")) = false := by cbv
    exact absurd spelled (List.any_eq_false.mp none record listed)
  have blank : ¬Visible " " := (Text.removeBlanks_eq_empty_iff " ").mp rfl
  obtain ⟨all, _, ⟨_, allNamed, allPasses⟩, others, rfl⟩ := List.forall₂_cons_left_iff.mp passed
  obtain ⟨any, _, ⟨_, anyNamed, anyPasses⟩, last, rfl⟩ := List.forall₂_cons_left_iff.mp others
  obtain ⟨void, _, ⟨_, voidNamed, voidPasses⟩, none, rfl⟩ := List.forall₂_cons_left_iff.mp last
  cases none
  cases allNamed
  cases anyNamed
  cases voidNamed
  have visited := allPasses.visits_iff.mpr ⟨"B | A", rfl, ⟨'A', by decide, rfl⟩, known⟩
  obtain ⟨_, typed, called⟩ := allPasses.call visited
  cases typed
  have anyKept := anyPasses.eq_of_not_visits (by
    rintro ⟨_, typed, -, authored⟩
    cases typed
    exact derived authored)
  have voidKept := voidPasses.eq_of_not_visits (by
    rintro ⟨_, typed, visible, -⟩
    cases typed
    exact blank visible)
  rw [called, anyKept, voidKept] at placed
  have texts : rebuildCase {} sampleIf
      [visitCall true (" | ".intercalate (Union.sorted (Union.tightSegments "B | A")))
        (oldValue sampleIf (some "all")), oldValue sampleIf (some "any"),
        oldValue sampleIf (some "void")] =
      [.line "case SyntaxKind.If:",
        .nested [
          .line "return Factory.updateIf(",
          .nested [
            .line "<If>node,",
            .line "visitNodes<A | B>((<If>node).all, cbNode, state),",
            .line "(<If>node).any,",
            .line "(<If>node).void);"]]] := by
    cbv
  rw [← texts]
  exact placed

end Visitor

end NodeSmith
