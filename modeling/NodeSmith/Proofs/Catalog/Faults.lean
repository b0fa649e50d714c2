import NodeSmith.Proofs.Catalog.Canonical

set_option autoImplicit false

namespace NodeSmith

open Outcome

namespace Json

def walkable : Json → Bool
  | list _ | text _ | record _ => true
  | null | bool _ | number _ => false

/-- The items of a value: those of a list, the characters of a text and the field names of a
record. -/
def walked : Json → List Json
  | list items => items
  | text value => (Text.characters value).map text
  | record fields => (Assoc.keys fields).map text
  | null | bool _ | number _ => []

def isRecord : Json → Bool
  | record _ => true
  | _ => false

def isText : Json → Bool
  | text _ => true
  | _ => false

/-- What a value has under a name: null if it is no record or has no such field. -/
def entry (value : Json) (name : String) : Json :=
  match value with
  | record fields => field fields name
  | _ => null

/-- A value that is absent, or text. -/
def Textual (value : Json) : Prop := value.present = false ∨ value.isText = true

def walkFaults (each : Json → List Fault) (value : Json) : List Fault :=
  if value.walkable then value.walked.flatMap each else [.notIterable]

def recordFaults (inside : List Fault) (value : Json) : List Fault :=
  if value.isRecord then inside else [.notRecord]

def textFaults (value : Json) : List Fault :=
  if value.present && !value.isText then [.notText] else []

theorem walked_of_items {value : Json} {items : List Json} (walks : value.items = .ok items) :
    value.walked = items := by
  cases value with
  | list | text | record => exact Except.ok.inj walks
  | null | bool | number => cases walks

theorem walk_reports {α : Type} {compute : Json → Except Fault α} {each : Json → List Fault}
    (value : Json) (reports : ∀ item, Reports (each item) (compute item)) :
    Reports (value.walkFaults each) (value.items >>= fun items => items.mapM compute) := by
  cases value with
  | list | text | record => exact .mapM fun item _ => reports item
  | null | bool | number => rfl

theorem walkFaults_eq_nil_iff {each : Json → List Fault} {value : Json} :
    value.walkFaults each = [] ↔ value.walkable = true ∧ ∀ item ∈ value.walked, each item = [] := by
  unfold walkFaults
  split
  · rename_i walks
    rw [List.flatMap_eq_nil_iff, and_iff_right walks]
  · rename_i stuck
    exact ⟨nofun, fun walks => absurd walks.1 stuck⟩

theorem recordFaults_eq_nil_iff {inside : List Fault} {value : Json} :
    value.recordFaults inside = [] ↔ value.isRecord = true ∧ inside = [] := by
  unfold recordFaults
  split
  · rename_i structured
    rw [and_iff_right structured]
  · rename_i flat
    exact ⟨nofun, fun structured => absurd structured.1 flat⟩

theorem textFaults_eq_nil_iff {value : Json} : value.textFaults = [] ↔ value.Textual := by
  unfold textFaults Textual
  cases value.present <;> cases value.isText <;> decide

theorem eq_notText_of_mem_textFaults {value : Json} {fault : Fault}
    (member : fault ∈ value.textFaults) : fault = .notText := by
  unfold textFaults at member
  split at member
  · exact List.mem_singleton.mp member
  · exact absurd member List.not_mem_nil

theorem Textual.absent {value : Json} (textual : value.Textual) (other : value.isText = false) :
    value.present = false := textual.resolve_right (ne_true_of_eq_false other)

theorem textFaults_of_absent {value : Json} (absent : value.present = false) :
    value.textFaults = [] := textFaults_eq_nil_iff.mpr (.inl absent)

theorem textFaults_orElse {other : Json} (value : Json) (textual : other.textFaults = []) :
    (value.orElse other).textFaults = value.textFaults := by
  unfold orElse
  split
  · rfl
  · rename_i absent
    rw [textual, textFaults_of_absent (eq_false_of_ne_true absent)]

theorem textFaults_ofText? (value : Option String) : (ofText? value).textFaults = [] := by
  cases value with
  | none => rfl
  | some shown => exact textFaults_eq_nil_iff.mpr (.inr rfl)

end Json

namespace Schema

/-- What stands for members is null, or walks over records. -/
def MembersShaped (children : Json) : Prop :=
  children = .null ∨
    children.walkable = true ∧ ∀ member ∈ children.walked, member.isRecord = true

/-- A record whose members can be read. -/
def DefinitionShaped (record : Json) : Prop :=
  record.isRecord = true ∧ MembersShaped (record.entry "children")

/-- A schema all of whose definitions can be read. -/
def Shaped (schema : Json) : Prop :=
  schema.walkable = true ∧ ∀ record ∈ schema.walked, DefinitionShaped record

/-- The faults of what stands for members, in the order in which it is walked. -/
def memberFaults : Json → List Fault
  | .null => []
  | value => value.walkFaults (Json.recordFaults [])

/-- The faults of a schema, in the order in which it is walked. -/
def shapeFaults (schema : Json) : List Fault :=
  schema.walkFaults fun record => record.recordFaults (memberFaults (record.entry "children"))

theorem memberFaults_eq_nil_iff {children : Json} :
    memberFaults children = [] ↔ MembersShaped children := by
  by_cases none : children = .null
  · rw [none]
    exact ⟨fun _ => .inl rfl, fun _ => rfl⟩
  · have walks : memberFaults children = children.walkFaults (Json.recordFaults []) := by
      cases children with
      | null => exact absurd rfl none
      | bool | number | text | list | record => rfl
    simp only [walks, Json.walkFaults_eq_nil_iff, Json.recordFaults_eq_nil_iff, and_true,
      MembersShaped, none, false_or]

theorem shapeFaults_eq_nil_iff {schema : Json} : shapeFaults schema = [] ↔ Shaped schema := by
  simp only [shapeFaults, Json.walkFaults_eq_nil_iff, Json.recordFaults_eq_nil_iff,
    memberFaults_eq_nil_iff, Shaped, DefinitionShaped]

/-- The values of a record that have to be text, by the names of the fields. -/
def TextualAt (names : List String) (record : Json) : Prop :=
  ∀ name ∈ names, (record.entry name).Textual

/-- The values that name members and types are absent, or texts. -/
def DefinitionTextual (record : Json) : Prop :=
  TextualAt ["kind", "type", "types", "baseType", "name"] record ∧
    ∀ member ∈ (record.entry "children").walked, TextualAt ["name", "paramName", "type"] member

/-- The values of all definitions are absent, or texts, where text is needed. -/
def Textual (schema : Json) : Prop := ∀ record ∈ schema.walked, DefinitionTextual record

end Schema

namespace Member

def textFaults (member : Member) : List Fault :=
  member.name.textFaults ++ (member.param.textFaults ++ member.type.textFaults)

theorem ofJson_reports (value : Json) : Reports (value.recordFaults []) (ofJson value) := by
  cases value <;> rfl

theorem listOfJson_reports (children : Json) :
    Reports (Schema.memberFaults children) (listOfJson children) := by
  have walks := children.walk_reports ofJson_reports
  cases children with
  | null => rfl
  | bool | number => exact walks
  | text | list | record => exact walks.map some

end Member

namespace Definition

def textFaults (definition : Definition) : List Fault :=
  definition.kind.textFaults ++
    ((definition.type.orElse (definition.types.orElse definition.baseType)).textFaults ++
      (definition.types.textFaults ++ (definition.baseType.textFaults ++
        (definition.name.textFaults ++ definition.memberList.flatMap Member.textFaults))))

theorem ofJson_reports (value : Json) :
    Reports (value.recordFaults (Schema.memberFaults (value.entry "children"))) (ofJson value) := by
  cases value with
  | record fields =>
    exact (Member.listOfJson_reports (Json.field fields "children")).map _
  | null | bool | number | text | list => rfl

/-- Reading a schema fails with its first fault. -/
theorem listOfJson_reports (schema : Json) :
    Reports (Schema.shapeFaults schema) (listOfJson schema) := schema.walk_reports ofJson_reports

end Definition

namespace Union

theorem ofValue_reports {α : Type} (rule : String → Option α) (value : Json) :
    Reports value.textFaults (ofValue rule value) := by
  cases present : value.present with
  | false =>
    rw [ofValue_absent rule value present, Json.textFaults_of_absent present]
    rfl
  | true =>
    unfold Json.textFaults
    rw [present]
    cases value with
    | text written => rfl
    | null | bool | number | list | record =>
      rw [ofValue, present]
      · rfl
      · intro written impossible
        cases impossible

end Union

theorem Member.canonical_reports (member : Member) :
    Reports member.textFaults member.canonical := by
  refine (Union.ofValue_reports _ member.name).bind fun name _ => ?_
  cases present : member.param.present with
  | true =>
    refine (Union.ofValue_reports _ member.param).bind fun param _ => ?_
    exact (Union.ofValue_reports _ member.type).map _
  | false =>
    rw [Json.textFaults_of_absent present]
    exact (Union.ofValue_reports _ member.type).map _

namespace Definition

theorem ruled_reports {rule : Json → Except Fault (Option String)} {value : Json}
    (reports : value.present = true → Reports value.textFaults (rule value)) :
    Reports value.textFaults (ruled rule value) := by
  unfold ruled
  split
  · rename_i present
    exact (reports present).map _
  · rename_i absent
    exact Json.textFaults_of_absent (eq_false_of_ne_true absent)

theorem tightKind_reports {value : Json} (present : value.present = true) :
    Reports value.textFaults (tightKind value) := by
  unfold Json.textFaults
  rw [present]
  cases value <;> rfl

theorem textFaults_of_ruled_eq_ok {rule : Json → Except Fault (Option String)} {value made : Json}
    (ruled : ruled rule value = .ok made) : made.textFaults = [] := by
  rcases ruled_eq_ok ruled with ⟨shown, -, rfl⟩ | ⟨absent, rfl⟩
  · exact Json.textFaults_ofText? shown
  · exact Json.textFaults_of_absent absent

theorem canonical_reports (definition : Definition) :
    Reports definition.textFaults definition.canonical := by
  unfold textFaults memberList canonical
  refine (ruled_reports tightKind_reports).bind fun kind kinded => ?_
  refine (Union.ofValue_reports _ _).bind fun type _ => ?_
  refine (ruled_reports fun _ => Union.ofValue_reports _ _).bind fun types _ => ?_
  refine (ruled_reports fun _ => Union.ofValue_reports _ _).bind fun baseType _ => ?_
  -- What a name is derived from has been made by a rule, so that only an own name is at fault.
  have derived : (kind.orElse (.ofText? type)).textFaults = [] := by
    rw [Json.textFaults_orElse kind (Json.textFaults_ofText? type),
      textFaults_of_ruled_eq_ok kinded]
  rw [← Json.textFaults_orElse definition.name derived]
  refine (Union.ofValue_reports _ _).bind fun name _ => ?_
  cases definition.members with
  | none => rfl
  | some members =>
    exact ((Reports.mapM fun member _ => member.canonical_reports).map some).map _

end Definition

theorem Catalog.ofDefinitions_reports (definitions : List Definition) :
    Reports (definitions.flatMap Definition.textFaults) (ofDefinitions definitions) :=
  (Reports.mapM fun definition _ => definition.canonical_reports).map _

/-- Bringing definitions into canonical form fails for want of a text, and for nothing else. -/
theorem Definition.eq_notText_of_mem_textFaults {definition : Definition} {fault : Fault}
    (member : fault ∈ definition.textFaults) : fault = .notText := by
  simp only [textFaults, Member.textFaults, List.mem_append, List.mem_flatMap] at member
  rcases member with found | found | found | found | found | ⟨_, -, found | found | found⟩ <;>
    exact Json.eq_notText_of_mem_textFaults found

/-- What a definition needs as text. A derived type or name adds nothing to that. -/
theorem Definition.textFaults_eq_nil_iff {definition : Definition} :
    definition.textFaults = [] ↔ definition.kind.Textual ∧ definition.type.Textual ∧
      definition.types.Textual ∧ definition.baseType.Textual ∧ definition.name.Textual ∧
        ∀ member ∈ definition.memberList, member.textFaults = [] := by
  have derived (types : definition.types.textFaults = [])
      (baseType : definition.baseType.textFaults = []) :
      (definition.type.orElse (definition.types.orElse definition.baseType)).textFaults =
        definition.type.textFaults := by
    apply Json.textFaults_orElse
    rw [Json.textFaults_orElse _ baseType, types]
  simp only [← Json.textFaults_eq_nil_iff, textFaults, List.append_eq_nil_iff,
    List.flatMap_eq_nil_iff]
  constructor
  · rintro ⟨kind, type, types, baseType, others⟩
    rw [derived types baseType] at type
    exact ⟨kind, type, types, baseType, others⟩
  · rintro ⟨kind, type, types, baseType, others⟩
    rw [← derived types baseType] at type
    exact ⟨kind, type, types, baseType, others⟩

namespace Schema

theorem textFaults_member {value : Json} {member : Member}
    (read : Member.ofJson value = .ok member) :
    member.textFaults = [] ↔ TextualAt ["name", "paramName", "type"] value := by
  cases value with
  | record fields =>
    have same := Except.ok.inj read
    subst same
    simp only [Member.textFaults, List.append_eq_nil_iff, Json.textFaults_eq_nil_iff, TextualAt,
      List.forall_mem_cons, Json.entry, List.not_mem_nil, false_imp_iff, implies_true, and_true]
  | null | bool | number | text | list => cases read

theorem forall₂_members {children : Json} {members : Option (List Member)}
    (read : Member.listOfJson children = .ok members) :
    List.Forall₂ (fun value member => Member.ofJson value = .ok member) children.walked
      (members.getD []) := by
  by_cases none : children = .null
  · rw [none] at read ⊢
    cases read
    exact .nil
  · have walks : Member.listOfJson children = children.items >>= fun items =>
        items.mapM Member.ofJson >>= fun members => pure (some members) := by
      cases children with
      | null => exact absurd rfl none
      | bool | number | text | list | record => rfl
    rw [walks] at read
    obtain ⟨items, walked, read⟩ := bind_eq_ok.mp read
    obtain ⟨listed, each, read⟩ := bind_eq_ok.mp read
    cases read
    rw [Json.walked_of_items walked]
    exact forall₂_of_mapM_eq_ok each

theorem textFaults_definition {record : Json} {definition : Definition}
    (read : Definition.ofJson record = .ok definition) :
    definition.textFaults = [] ↔ DefinitionTextual record := by
  cases record with
  | record fields =>
    obtain ⟨_, same, read⟩ := bind_eq_ok.mp read
    cases same
    obtain ⟨members, listed, read⟩ := bind_eq_ok.mp read
    have same := pure_eq_ok.mp read
    subst same
    rw [Definition.textFaults_eq_nil_iff, Definition.memberList,
      forall_iff_of_forall₂ (forall₂_members listed) fun _ _ => textFaults_member]
    simp only [DefinitionTextual, TextualAt, List.forall_mem_cons, Json.entry, List.not_mem_nil,
      false_imp_iff, implies_true, and_true, and_assoc]
  | null | bool | number | text | list => cases read

/-- Definitions that were read need text where their schema does. -/
theorem textFaults_schema {schema : Json} {definitions : List Definition}
    (read : Definition.listOfJson schema = .ok definitions) :
    definitions.flatMap Definition.textFaults = [] ↔ Textual schema := by
  obtain ⟨records, walked, read⟩ := bind_eq_ok.mp read
  rw [List.flatMap_eq_nil_iff, Textual, Json.walked_of_items walked]
  exact forall_iff_of_forall₂ (forall₂_of_mapM_eq_ok read) fun _ _ => textFaults_definition

end Schema

end NodeSmith
