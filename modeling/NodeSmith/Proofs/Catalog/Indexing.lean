import NodeSmith.Draft
import NodeSmith.Proofs.Catalog.Stability

set_option autoImplicit false

namespace NodeSmith

open Outcome

def Member.texts (member : Member) : List Json := [member.name, member.param, member.type]

namespace Definition

/-- The values of a definition that have to be text, if they are present. -/
def texts (definition : Definition) : List Json :=
  [definition.kind, definition.type, definition.types, definition.baseType, definition.name] ++
    definition.memberList.flatMap Member.texts

/-- Whether something that is present stands in the place of a text. -/
def Misfit (definition : Definition) : Prop :=
  ∃ value ∈ definition.texts, value.present = true ∧ value.isText = false

theorem textual_iff (definition : Definition) :
    definition.textFaults = [] ↔ ∀ value ∈ definition.texts, value.Textual := by
  simp only [textFaults_eq_nil_iff, Member.textFaults, texts, Member.texts,
    List.append_eq_nil_iff, Json.textFaults_eq_nil_iff, List.forall_mem_append,
    List.forall_mem_cons, List.forall_mem_flatMap, List.not_mem_nil, false_imp_iff, implies_true,
    and_true, and_assoc]

theorem misfit_iff (definition : Definition) :
    definition.Misfit ↔ definition.textFaults ≠ [] := by
  rw [ne_eq, textual_iff, not_forall]
  simp only [Misfit, Json.Textual, Classical.not_imp, not_or, Bool.not_eq_false, Bool.not_eq_true]

end Definition

/-- Text has a key, and so has what is absent: the one of a canonical form. -/
theorem Union.keyOf_of_textual {value : Json} (textual : value.Textual) :
    keyOf value = .ok (keyOfCanonical value) := by
  cases value with
  | text written => rfl
  | null | bool | number | list | record =>
    exact (keyOf_eq_none _).mpr (textual.absent rfl)

namespace Tables

/-- Registers a definition by its kind, which has to be text. -/
def registerKind (tables : Tables) (entry : Entry) : Except Fault Tables :=
  if entry.definition.kind.present then
    entry.definition.kind.asText.map fun kind =>
      { tables with kinds := Assoc.insert tables.kinds kind entry }
  else .ok tables

def registerType (tables : Tables) (authored : Bool) (entry : Entry) : Except Fault Tables :=
  if authored then
    (Union.keyOf entry.definition.type).map fun key =>
      { tables with types := Assoc.insert tables.types key entry }
  else .ok tables

def registerSubtype (tables : Tables) (entry : Entry) : Except Fault Tables := do
  match ← Union.keyOf entry.definition.baseType with
  | some key =>
    let earlier := (Assoc.get? tables.subtypes key).getD []
    return { tables with subtypes := Assoc.insert tables.subtypes key (earlier ++ [entry]) }
  | none => return tables

/-- Registers a definition, whatever stands in the places of its texts. -/
def register (tables : Tables) (authored : Bool) (entry : Entry) : Except Fault Tables := do
  let withKind ← tables.registerKind entry
  let withType ← withKind.registerType authored entry
  withType.registerSubtype entry

/-- Registers definitions one after the other, from a position on, up to the first that stops. -/
def registerAll (tables : Tables) : Nat → List (Bool × Definition) → Except Fault Tables
  | _, [] => .ok tables
  | position, (authored, definition) :: rest => do
    let more ← tables.register authored ⟨position, definition⟩
    more.registerAll (position + 1) rest

variable (tables : Tables) {entry : Entry}

theorem registerKind_eq_ok (textual : entry.definition.kind.Textual) :
    tables.registerKind entry = .ok (tables.addKind entry) := by
  unfold registerKind addKind
  cases given : entry.definition.kind with
  | text kind =>
    by_cases empty : kind = ""
    · rw [empty]
      rfl
    · rw [Json.present_text, String.isEmpty_eq_false_iff.mpr empty]
      simp only [empty, ↓reduceIte]
      rfl
  | null | bool | number | list | record =>
    rw [given] at textual
    exact if_neg (ne_true_of_eq_false (textual.absent rfl))

theorem registerType_eq_ok (authored : Bool) (textual : entry.definition.type.Textual) :
    tables.registerType authored entry =
      .ok (if authored then tables.addType entry else tables) := by
  rw [registerType, Union.keyOf_of_textual textual]
  cases authored <;> rfl

theorem registerSubtype_eq_ok (textual : entry.definition.baseType.Textual) :
    tables.registerSubtype entry = .ok (tables.addSubtype entry) := by
  rw [registerSubtype, Union.keyOf_of_textual textual, ok_bind, addSubtype]
  cases Union.keyOfCanonical entry.definition.baseType <;> rfl

/-- A definition with text in the places of its texts is registered. -/
theorem register_eq_ok (authored : Bool) (textual : entry.definition.textFaults = []) :
    tables.register authored entry = .ok (tables.add authored entry) := by
  obtain ⟨kind, type, -, baseType, -⟩ := Definition.textFaults_eq_nil_iff.mp textual
  rw [register, registerKind_eq_ok tables kind, ok_bind, registerType_eq_ok _ authored type,
    ok_bind, registerSubtype_eq_ok _ baseType]
  rfl

/-- Definitions with text in the places of their texts are registered, all of them. -/
theorem registerAll_eq_ok {marked : List (Bool × Definition)}
    (textual : ∀ item ∈ marked, item.2.textFaults = []) (position : Nat) :
    tables.registerAll position marked = .ok (tables.addAll position marked) := by
  induction marked generalizing tables position with
  | nil => rfl
  | cons item rest ih =>
    obtain ⟨here, later⟩ := List.forall_mem_cons.mp textual
    rw [registerAll, register_eq_ok tables item.1 here, ok_bind]
    exact ih _ later _

-- A definition that is not in canonical form may well stop it.
example : registerAll {} 0 [(false, { baseType := .number (.whole 7) })] = .error .notText := rfl

end Tables

namespace Catalog

variable {definitions canonical : List Definition}

theorem registerAll_canonical (made : definitions.mapM Definition.canonical = .ok canonical)
    (authored : List Bool) :
    Tables.registerAll {} 0 (authored.zip canonical) =
      .ok (Tables.addAll {} 0 (authored.zip canonical)) := by
  apply Tables.registerAll_eq_ok
  intro item found
  obtain ⟨raw, -, canonizes⟩ :=
    exists_of_mem_right (forall₂_of_mapM_eq_ok made) (List.of_mem_zip found).2
  exact (Definition.canonical_eq_ok_iff.mp canonizes).textFaults_again

theorem exists_ofDefinitions_iff (definitions : List Definition) :
    (∃ catalog, ofDefinitions definitions = .ok catalog) ↔
      ¬∃ definition ∈ definitions, definition.Misfit := by
  rw [(ofDefinitions_reports definitions).exists_ok_iff, List.flatMap_eq_nil_iff]
  simp only [Definition.misfit_iff, not_exists, not_and, not_not]

/-- That no catalog can be made has only one cause. -/
theorem eq_notText_of_ofDefinitions_eq_error {fault : Fault}
    (fails : ofDefinitions definitions = .error fault) : fault = .notText := by
  obtain ⟨definition, -, found⟩ :=
    List.mem_flatMap.mp ((ofDefinitions_reports definitions).mem fails)
  exact Definition.eq_notText_of_mem_textFaults found

end Catalog

namespace Draft

/-- Indexes a draft step by step. All canonical forms are made before they take the places of the
definitions, and they have taken these before any is registered: what stopped there would leave
the definitions replaced. -/
def indexStepwise (draft : Draft) : Except Fault Unit × Draft :=
  match draft.definitions.mapM Definition.canonical with
  | .error fault => (.error fault, { definitions := draft.definitions })
  | .ok canonical =>
    let authored := draft.definitions.map fun definition => definition.type.present
    match Tables.registerAll {} 0 (authored.zip canonical) with
    | .error fault => (.error fault, { definitions := canonical })
    | .ok tables => (.ok (), { definitions := canonical, tables := some tables })

theorem indexStepwise_eq (draft : Draft) : draft.indexStepwise = draft.apply .index := by
  unfold indexStepwise apply Catalog.ofDefinitions
  cases made : draft.definitions.mapM Definition.canonical with
  | error fault => rfl
  | ok canonical =>
    dsimp only
    rw [Catalog.registerAll_canonical made]
    rfl

/-- An index fails exactly on misfits, wherever they are, and only for want of a text. If it fails
the definitions are what they were, and if not each is its canonical form; registering these does
not fail. -/
theorem index_atomic (draft : Draft) (history : List Edit) {outcome : Except Fault Unit}
    {after : Draft} (indexed : (draft.replay history).apply .index = (outcome, after)) :
    ((∃ fault, outcome = .error fault) ↔
      ∃ definition ∈ (draft.replay history).definitions, definition.Misfit) ∧
    (∀ fault, outcome = .error fault → fault = .notText ∧
      after.definitions = (draft.replay history).definitions ∧ after.tables = none) ∧
    (outcome = .ok () →
      List.Forall₂ (fun raw shown => raw.canonical = .ok shown)
        (draft.replay history).definitions after.definitions ∧ after.tables.isSome = true) ∧
    (∀ canonical, (draft.replay history).definitions.mapM Definition.canonical = .ok canonical →
      ∀ authored : List Bool, ∃ tables,
        Tables.registerAll {} 0 (authored.zip canonical) = .ok tables) ∧
    (draft.replay history).indexStepwise = (outcome, after) := by
  generalize draft.replay history = before at indexed ⊢
  have stepwise := before.indexStepwise_eq.trans indexed
  have possible := Catalog.exists_ofDefinitions_iff before.definitions
  have registered (canonical : List Definition)
      (made : before.definitions.mapM Definition.canonical = .ok canonical)
      (authored : List Bool) :
      ∃ tables, Tables.registerAll {} 0 (authored.zip canonical) = .ok tables :=
    ⟨_, Catalog.registerAll_canonical made authored⟩
  unfold apply at indexed
  cases made : Catalog.ofDefinitions before.definitions with
  | error fault =>
    rw [made] at indexed
    cases indexed
    refine ⟨iff_of_true ⟨fault, rfl⟩ ?_, ?_, nofun, registered, stepwise⟩
    · by_contra fit
      obtain ⟨catalog, impossible⟩ := possible.mpr fit
      rw [made] at impossible
      cases impossible
    · intro same stopped
      cases stopped
      exact ⟨Catalog.eq_notText_of_ofDefinitions_eq_error made, rfl, rfl⟩
  | ok catalog =>
    rw [made] at indexed
    cases indexed
    refine ⟨iff_of_false ?_ (possible.mp ⟨catalog, made⟩), nofun, ?_, registered, stepwise⟩
    · rintro ⟨fault, impossible⟩
      cases impossible
    · exact fun _ => ⟨Catalog.forall₂_canonical made, rfl⟩

/-- A definition is indexed, and then another one is appended that has a number for its kind. -/
def sampleMisfitHistory : List Edit :=
  [.append { kind := .text " Sum" }, .index, .append { kind := .number (.whole 7) }]

theorem sample_index_atomic :
    let before := replay { definitions := [] } sampleMisfitHistory
    before.apply .index = (.error .notText, before) ∧
      (∃ definition ∈ before.definitions, definition.Misfit) ∧
      let mended := before.replay [.erase 1]
      List.Forall₂ (fun raw shown => raw.canonical = .ok shown) mended.definitions
        (mended.apply .index).2.definitions := by
  intro before
  have failing : before.apply .index = (.error .notText, before) := by cbv
  obtain ⟨misfits, -⟩ := index_atomic { definitions := [] } sampleMisfitHistory failing
  obtain ⟨-, -, done, -⟩ := index_atomic before [.erase 1] rfl
  exact ⟨failing, misfits.mp ⟨.notText, rfl⟩, (done (by cbv)).1⟩

end Draft

end NodeSmith
