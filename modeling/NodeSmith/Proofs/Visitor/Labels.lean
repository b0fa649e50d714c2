import NodeSmith.Proofs.Assoc
import NodeSmith.Proofs.Catalog.Tables
import NodeSmith.Proofs.Dispatch
import NodeSmith.Visitor

set_option autoImplicit false

namespace NodeSmith

open Layout (Code)

namespace Definition

variable {raw shown : Definition}

theorem kindKey_of_not_creatable (absent : shown.creatable = false) : shown.kindKey = none := by
  unfold creatable at absent
  unfold kindKey
  cases given : shown.kind with
  | text written =>
    rw [given] at absent
    have empty : written = "" := by simpa using absent
    rw [empty]
    rfl
  | null | bool | number | list | record => rfl

theorem Canonizes.kindKey_of_creatable (canonizes : raw.Canonizes shown)
    (kept : shown.creatable = true) : shown.kindKey = some shown.kind.display := by
  unfold creatable at kept
  rcases ruled_eq_ok canonizes.kind with ⟨kind, -, same⟩ | ⟨absent, same⟩
  · rw [same] at kept
    obtain ⟨written, rfl, visible⟩ := (Json.present_ofText? kind).mp kept
    rw [kindKey, same, Json.ofText?]
    simp only [visible, ↓reduceIte, Json.display]
  · rw [same, absent] at kept
    cases kept

end Definition

/-- The definitions that are registered by a kind, in schema order. -/
def Catalog.ofKind (catalog : Catalog) (kind : String) : List Definition :=
  catalog.definitions.filter fun definition => definition.kindKey == some kind

namespace Visitor

/-- The kind that a line is a label for. -/
def labelled? : Code → Option String
  | .line text =>
    if "case SyntaxKind.".toList.isPrefixOf text.toList && [':'].isSuffixOf text.toList then
      some (String.ofList (text.toList.drop "case SyntaxKind.".length).dropLast)
    else none
  | _ => none

def labels (pieces : List Code) : List String := pieces.filterMap labelled?

/-- The first body among pieces of code. -/
def firstBody? : List Code → Option (List Code)
  | [] => none
  | .nested body :: _ => some body
  | _ :: rest => firstBody? rest

/-- Where a switch goes for a kind: to the body after the first label for it. -/
def dispatched? (kind : String) : List Code → Option (List Code)
  | [] => none
  | code :: rest => if labelled? code = some kind then firstBody? rest else dispatched? kind rest

/-- The cases in a function that is a switch. -/
def switchOf : List Code → List Code
  | [_, .nested [_, .nested cases, _], _] => cases
  | _ => []

theorem labelled?_label (definition : Definition) :
    labelled? (label definition) = some definition.kind.display := by
  have chars : ("case SyntaxKind." ++ definition.kind.display ++ ":").toList =
      "case SyntaxKind.".toList ++ (definition.kind.display.toList ++ [':']) := by
    rw [String.toList_append, String.toList_append, List.append_assoc]
    rfl
  have start : "case SyntaxKind.".toList.isPrefixOf
      ("case SyntaxKind.".toList ++ (definition.kind.display.toList ++ [':'])) = true :=
    List.isPrefixOf_iff_prefix.mpr (List.prefix_append _ _)
  have ends : [':'].isSuffixOf
      ("case SyntaxKind.".toList ++ (definition.kind.display.toList ++ [':'])) = true :=
    List.isSuffixOf_iff_suffix.mpr ((List.suffix_append _ _).trans (List.suffix_append _ _))
  simp only [label, labelled?, chars, start, ends, Bool.and_self, ↓reduceIte,
    ← String.length_toList, List.drop_left, List.dropLast_concat, String.ofList_toList]

variable (settings : Settings) (tables : Tables)

theorem labels_cases (group : DispatchGroup) :
    labels (cases settings tables group) =
      group.members.map fun definition => definition.kind.display := by
  have own : labelled? (.nested (body settings tables group)) = none := rfl
  have each : labelled? ∘ label = some ∘ fun definition => definition.kind.display :=
    funext labelled?_label
  rw [labels, cases, List.filterMap_append, List.filterMap_map, List.filterMap_cons_none own,
    List.filterMap_nil, List.append_nil, each, List.filterMap_eq_map]

theorem labels_flatMap_cases (groups : List DispatchGroup) :
    labels (groups.flatMap (cases settings tables)) =
      (groups.flatMap DispatchGroup.members).map fun definition => definition.kind.display := by
  induction groups with
  | nil => rfl
  | cons group rest ih =>
    rw [List.flatMap_cons, labels, List.filterMap_append, ← labels, ← labels, labels_cases, ih,
      List.flatMap_cons, List.map_append]

theorem firstBody?_labels (members : List Definition) (body : List Code) (rest : List Code) :
    firstBody? (members.map label ++ .nested body :: rest) = some body := by
  induction members with
  | nil => rfl
  | cons member more ih => exact ih

/-- A group takes the kinds of its members to its body. -/
theorem dispatched?_cases (kind : String) (group : DispatchGroup) (rest : List Code) :
    dispatched? kind (cases settings tables group ++ rest) =
      if kind ∈ group.members.map fun definition => definition.kind.display then
        some (body settings tables group)
      else dispatched? kind rest := by
  rw [cases, List.append_assoc, List.singleton_append]
  generalize body settings tables group = body
  induction group.members with
  | nil => rfl
  | cons member more ih =>
    rw [List.map_cons, List.cons_append, dispatched?, labelled?_label, firstBody?_labels, ih,
      List.map_cons]
    by_cases here : member.kind.display = kind
    · rw [if_pos (congrArg some here), if_pos (here ▸ List.mem_cons_self)]
    · simp only [Option.some.injEq, here, ↓reduceIte, List.mem_cons, Ne.symm here, false_or]

/-- The body that a definition would have in a group of its own. -/
def ownBody (definition : Definition) : List Code :=
  body settings tables ⟨definition.updatable, [definition]⟩

theorem body_eq_ownBody {definitions : List Definition} {group : DispatchGroup}
    (found : group ∈ DispatchGroup.ofDefinitions definitions) {definition : Definition}
    (member : definition ∈ group.members) :
    body settings tables group = ownBody settings tables definition := by
  obtain ⟨same, alone⟩ :=
    DispatchGroup.uniform_of_mem_ofDefinitions definitions group found definition member
  rw [ownBody, body, body, same]
  cases updates : definition.updatable with
  | false => rfl
  | true => rw [alone updates]

/-- Groups take a kind to the body of the first member that has it. -/
theorem dispatched?_flatMap_cases (kind : String) {groups : List DispatchGroup}
    (bodies : ∀ group ∈ groups, ∀ definition ∈ group.members,
      body settings tables group = ownBody settings tables definition) :
    dispatched? kind (groups.flatMap (cases settings tables)) =
      ((groups.flatMap DispatchGroup.members).find? fun definition =>
        definition.kind.display == kind).map (ownBody settings tables) := by
  induction groups with
  | nil => rfl
  | cons group rest ih =>
    obtain ⟨here, later⟩ := List.forall_mem_cons.mp bodies
    rw [List.flatMap_cons, dispatched?_cases, ih later, List.flatMap_cons, List.find?_append]
    cases first : group.members.find? fun definition => definition.kind.display == kind with
    | none =>
      have absent : kind ∉ group.members.map fun definition => definition.kind.display := by
        intro listed
        obtain ⟨definition, member, same⟩ := List.mem_map.mp listed
        exact List.find?_eq_none.mp first definition member (beq_iff_eq.mpr same)
      rw [if_neg absent, Option.none_or]
    | some definition =>
      have member := List.mem_of_find?_eq_some first
      have same := List.find?_some first
      rw [if_pos (List.mem_map.mpr ⟨definition, member, beq_iff_eq.mp same⟩), Option.some_or,
        Option.map_some, here definition member]

variable {schema : Json} {catalog : Catalog}

theorem switchOf_accept : switchOf (accept settings catalog) =
    (DispatchGroup.ofDefinitions catalog.definitions).flatMap (cases settings catalog.tables) :=
  rfl

/-- The creatable definitions are those that are registered by a kind, and that kind is shown. -/
theorem kindKey_eq (indexed : Catalog.ofSchema schema = .ok catalog) {definition : Definition}
    (listed : definition ∈ catalog.definitions) : definition.kindKey =
      if definition.creatable then some definition.kind.display else none := by
  obtain ⟨raw, canonizes⟩ := Catalog.exists_canonizes indexed listed
  cases kept : definition.creatable with
  | false => exact Definition.kindKey_of_not_creatable kept
  | true => exact canonizes.kindKey_of_creatable kept

theorem labels_accept (indexed : Catalog.ofSchema schema = .ok catalog) :
    labels (switchOf (accept settings catalog)) =
      catalog.definitions.filterMap Definition.kindKey := by
  rw [switchOf_accept, labels_flatMap_cases, DispatchGroup.flatMap_members,
    ← List.filterMap_eq_map, List.filterMap_filter]
  exact List.filterMap_congr fun definition listed => (kindKey_eq indexed listed).symm

/-- The dispatch goes to the first definition of a kind. -/
theorem dispatched?_accept (indexed : Catalog.ofSchema schema = .ok catalog) (kind : String) :
    dispatched? kind (switchOf (accept settings catalog)) =
      (catalog.ofKind kind).head?.map (ownBody settings catalog.tables) := by
  rw [switchOf_accept, dispatched?_flatMap_cases settings catalog.tables kind
    fun group found definition member => body_eq_ownBody settings catalog.tables found member,
    DispatchGroup.flatMap_members, ← List.head?_filter, List.filter_filter, Catalog.ofKind]
  congr 2
  apply List.filter_congr
  intro definition listed
  rw [kindKey_eq indexed listed]
  cases definition.creatable with
  | false => exact Bool.and_false _
  | true => simp only [Bool.and_true, ↓reduceIte, Option.some_beq_some]

theorem definition_get?_kinds (indexed : Catalog.ofSchema schema = .ok catalog) (kind : String) :
    (Assoc.get? catalog.tables.kinds kind).map Entry.definition =
      (catalog.ofKind kind).getLast? := by
  obtain ⟨raws, -, made⟩ := Catalog.ofSchema_eq_ok indexed
  obtain ⟨canonical, registered⟩ := Catalog.ofDefinitions_eq_ok made
  obtain ⟨-, shown, -⟩ := Catalog.listed_spec canonical.length_eq
  rw [registered, Tables.get?_kinds_addAll, Assoc.get?_nil, Option.or_none, Option.map_map,
    ← List.getLast?_map, Catalog.ofKind]
  conv_rhs => rw [← shown, List.filter_map]
  rfl

theorem mem_keys_kinds (indexed : Catalog.ofSchema schema = .ok catalog) (kind : String) :
    kind ∈ Assoc.keys catalog.tables.kinds ↔
      kind ∈ catalog.definitions.filterMap Definition.kindKey := by
  have found := definition_get?_kinds indexed kind
  rw [← Assoc.isSome_get?_iff, ← Option.isSome_map (f := Entry.definition), found,
    List.getLast?_isSome, Catalog.ofKind, ne_eq, List.filter_eq_nil_iff, List.mem_filterMap]
  simp only [beq_iff_eq, not_forall, not_not, exists_prop]

/-- Every kind labels one case, nothing else is a label, and the dispatch leads to the definition
that the tables find. -/
structure Total (settings : Settings) (catalog : Catalog) : Prop where
  once : ∀ kind ∈ Assoc.keys catalog.tables.kinds,
    (labels (switchOf (accept settings catalog))).count kind = 1
  known : ∀ kind ∈ labels (switchOf (accept settings catalog)),
    kind ∈ Assoc.keys catalog.tables.kinds
  found : ∀ kind entry, catalog.tables.findKind (.text kind) = .ok (some entry) →
    dispatched? kind (switchOf (accept settings catalog)) =
      some (ownBody settings catalog.tables entry.definition)

theorem length_ofKind (kind : String) : (catalog.ofKind kind).length =
    (catalog.definitions.filterMap Definition.kindKey).count kind := by
  rw [List.count_filterMap, List.countP_eq_length_filter, Catalog.ofKind]

theorem total_iff (indexed : Catalog.ofSchema schema = .ok catalog) :
    Total settings catalog ↔ (catalog.definitions.filterMap Definition.kindKey).Nodup := by
  constructor
  · intro total
    rw [List.nodup_iff_count_le_one]
    intro kind
    by_cases listed : kind ∈ catalog.definitions.filterMap Definition.kindKey
    · rw [← labels_accept settings indexed,
        total.once kind ((mem_keys_kinds indexed kind).mpr listed)]
    · rw [List.count_eq_zero_of_not_mem listed]
      exact Nat.zero_le 1
  · intro distinct
    constructor
    case once =>
      intro kind listed
      rw [labels_accept settings indexed]
      exact List.count_eq_one_of_mem distinct ((mem_keys_kinds indexed kind).mp listed)
    case known =>
      intro kind listed
      rw [labels_accept settings indexed] at listed
      exact (mem_keys_kinds indexed kind).mpr listed
    case found =>
      intro kind entry held
      -- The only definition of a kind is the first of them and the last.
      have few : (catalog.ofKind kind).length ≤ 1 := by
        rw [length_ofKind]
        exact List.nodup_iff_count_le_one.mp distinct kind
      have last := definition_get?_kinds indexed kind
      rw [Except.ok.inj held, Option.map_some] at last
      rw [dispatched?_accept settings indexed]
      match catalog.ofKind kind, few, last with
      | [], _, last => cases last
      | [definition], _, last =>
        have same : entry.definition = definition := Option.some.inj last
        rw [same]
        rfl

/-- Every kind of the tables is a label, once for each definition that has it, and nothing else is.
The dispatch goes to the first of these definitions and the tables find the last. -/
theorem accept_dispatch (indexed : Catalog.ofSchema schema = .ok catalog) :
    labels (switchOf (accept settings catalog)) =
        catalog.definitions.filterMap Definition.kindKey ∧
      (∀ kind, kind ∈ labels (switchOf (accept settings catalog)) ↔
        kind ∈ Assoc.keys catalog.tables.kinds) ∧
      (∀ kind, (labels (switchOf (accept settings catalog))).count kind =
        (catalog.ofKind kind).length) ∧
      (∀ kind, dispatched? kind (switchOf (accept settings catalog)) =
        (catalog.ofKind kind).head?.map (ownBody settings catalog.tables)) ∧
      (∀ kind, (Assoc.get? catalog.tables.kinds kind).map Entry.definition =
        (catalog.ofKind kind).getLast?) ∧
      (Total settings catalog ↔ (catalog.definitions.filterMap Definition.kindKey).Nodup) := by
  have labelled := labels_accept settings indexed
  refine ⟨labelled, ?_, ?_, dispatched?_accept settings indexed, definition_get?_kinds indexed,
    total_iff settings indexed⟩
  · intro kind
    rw [labelled, mem_keys_kinds indexed]
  · intro kind
    rw [labelled, length_ofKind]

/-- A definition that can be updated and one that cannot, of two kinds. -/
def sampleKinds : Json := .list [
  .record [("kind", .text "A"), ("children", .list [.record [("name", .text "x")]])],
  .record [("kind", .text "B")]]

def sampleKindsCatalog : Catalog :=
  let first : Definition :=
    { kind := .text "A", name := .text "A",
      members := some [{ name := .text "x", param := .text "x" }] }
  let last : Definition := { kind := .text "B", name := .text "B" }
  { definitions := [first, last], tables := { kinds := [("A", ⟨0, first⟩), ("B", ⟨1, last⟩)] } }

theorem ofSchema_sampleKinds : Catalog.ofSchema sampleKinds = .ok sampleKindsCatalog := by
  cbv

theorem sample_accept_dispatch : Catalog.ofSchema sampleKinds = .ok sampleKindsCatalog ∧
    labels (switchOf (accept {} sampleKindsCatalog)) = ["A", "B"] ∧
    Total {} sampleKindsCatalog := by
  obtain ⟨labelled, -, -, -, -, total⟩ := accept_dispatch {} ofSchema_sampleKinds
  have kinds : sampleKindsCatalog.definitions.filterMap Definition.kindKey = ["A", "B"] := by
    decide +kernel
  rw [labelled, total, kinds]
  exact ⟨ofSchema_sampleKinds, rfl, by decide⟩

/-- Two definitions of one kind up to white space, of which only the first can be updated. -/
def sampleTwins : Json := .list [
  .record [("kind", .text "A"), ("type", .text "A"),
    ("children", .list [.record [("name", .text "x"), ("type", .text "number")]])],
  .record [("kind", .text " A"), ("type", .text "A")]]

def firstTwin : Definition :=
  { kind := .text "A", type := .text "A", name := .text "A",
    members := some [{ name := .text "x", param := .text "x", type := .text "number" }] }

def lastTwin : Definition := { kind := .text "A", type := .text "A", name := .text "A" }

def sampleTwinsCatalog : Catalog where
  definitions := [firstTwin, lastTwin]
  tables := { kinds := [("A", ⟨1, lastTwin⟩)], types := [(some "A", ⟨1, lastTwin⟩)] }

/-- The kind of twins labels two cases. The dispatch leads to the first twin, which is rebuilt, and
the tables find the last one, which is handed back. -/
theorem twins_not_total : Catalog.ofSchema sampleTwins = .ok sampleTwinsCatalog ∧
    (labels (switchOf (accept {} sampleTwinsCatalog))).count "A" = 2 ∧
    dispatched? "A" (switchOf (accept {} sampleTwinsCatalog)) =
      some (ownBody {} sampleTwinsCatalog.tables firstTwin) ∧
    sampleTwinsCatalog.tables.findKind (.text "A") = .ok (some ⟨1, lastTwin⟩) ∧
    ownBody {} sampleTwinsCatalog.tables firstTwin ≠ ownBody {} sampleTwinsCatalog.tables lastTwin ∧
    ¬Total {} sampleTwinsCatalog := by
  have indexed : Catalog.ofSchema sampleTwins = .ok sampleTwinsCatalog := by cbv
  have twice : (labels (switchOf (accept {} sampleTwinsCatalog))).count "A" = 2 := by
    decide +kernel
  refine ⟨indexed, twice, rfl, rfl, ?_, ?_⟩
  · intro same
    exact absurd (congrArg List.length same) (by decide +kernel)
  · intro total
    have once := total.once "A" (by decide)
    rw [twice] at once
    cases once

end Visitor

end NodeSmith
