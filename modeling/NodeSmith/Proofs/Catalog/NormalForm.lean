import NodeSmith.Draft
import NodeSmith.Proofs.Catalog.Stability

set_option autoImplicit false

namespace NodeSmith

open Outcome
open Text (Free Visible isBlank removeBlanks)

namespace Union

/-- A text lists the members of another one in code-point order, each as often as it is there and
without white space, with a spaced bar between two of them. -/
def Lists (shown source : String) : Prop :=
  ∃ names : List String, shown = " | ".intercalate names ∧ names.Perm (tightSegments source) ∧
    names.Pairwise (· ≤ ·) ∧ ∀ name ∈ names, Free isBlank name ∧ '|' ∉ name.toList

/-- A value and the type that stands in its place. -/
inductive TypeForm : Json → Json → Prop
  | missing {raw : Json} (hidden : ¬raw.Shows) : TypeForm raw .null
  | listed {source shown : String} (visible : Visible source) (some : shown ≠ "")
    (lists : Lists shown source) : TypeForm (.text source) (.text shown)

/-- A value and the name that stands in its place. A name that has no bar is kept. -/
inductive NameForm : Json → Json → Prop
  | missing {raw : Json} (absent : raw.present = false) : NameForm raw .null
  | named {source shown : String} (given : source ≠ "") (some : shown ≠ "")
    (plain : '|' ∉ shown.toList) (kept : '|' ∉ source.toList → shown = source) :
    NameForm (.text source) (.text shown)

/-- A value and the kind that stands in its place. -/
inductive KindForm : Json → Json → Prop
  | tight {source shown : String} (tight : Free isBlank shown)
    (kept : shown.toList = source.toList.filter fun c => !isBlank c) :
    KindForm (.text source) (.text shown)

/-- What is present takes a form, and what is not stays as it is. -/
def OrKept (form : Json → Json → Prop) (raw shown : Json) : Prop :=
  if raw.present then form raw shown else shown = raw

variable {value made : Json} {result : Option String}

theorem typeForm_of_canonicalOf (canonized : canonicalOf value = .ok result) :
    TypeForm value (.ofText? result) := by
  by_cases shows : value.Shows
  · obtain ⟨source, rfl, visible⟩ := shows
    have perm := sorted_perm (tightSegments source)
    have some := canonical_ne_empty (canonical_of_visible visible)
    rw [canonicalOf_eq_spaced_key visible] at canonized
    cases canonized
    refine .listed visible some ⟨_, spaced_key source, perm, sorted_ordered _, ?_⟩
    intro name found
    have member := perm.mem_iff.mp found
    exact ⟨free_of_mem_tightSegments member, bar_not_mem_of_mem_tightSegments member⟩
  · cases result with
    | none => exact .missing shows
    | some shown =>
      have seen : Json.ofText? (some shown) ≠ .null := nofun
      rw [ofText?_ne_null_iff canonized, present_canonicalOf_iff canonized] at seen
      exact absurd seen shows

theorem nameForm_of_identifierOf (named : identifierOf value = .ok result) :
    NameForm value (.ofText? result) := by
  cases result with
  | none => exact .missing ((ofValue_some_eq_none identifier value).mp named)
  | some shown =>
    obtain ⟨source, rfl, given, same⟩ := exists_of_ofValue_eq_some named
    cases same
    exact .named given (identifier_ne_empty given) (bar_not_mem_identifier source)
      (separate_of_no_bar "Or")

theorem NameForm.absent_of_null {raw shown : Json} (form : NameForm raw shown)
    (null : shown = .null) : raw.present = false := by
  cases form with
  | missing absent => exact absent
  | named => cases null

theorem NameForm.null_of_absent {raw shown : Json} (form : NameForm raw shown)
    (absent : raw.present = false) : shown = .null := by
  cases form with
  | missing => rfl
  | @named source shown given =>
    rw [Json.present_text, Bool.not_eq_false', String.isEmpty_iff] at absent
    exact absurd absent given

theorem orKept_of_ruled {rule : Json → Except Fault (Option String)} {form : Json → Json → Prop}
    (each : ∀ shown, rule value = .ok shown → form value (.ofText? shown))
    (ruled : Definition.ruled rule value = .ok made) : OrKept form value made := by
  unfold Definition.ruled at ruled
  unfold OrKept
  split at ruled
  · rename_i present
    rw [if_pos present]
    cases given : rule value with
    | error fault => rw [given] at ruled; cases ruled
    | ok shown =>
      rw [given] at ruled
      cases ruled
      exact each shown given
  · rename_i absent
    rw [if_neg absent]
    exact (Except.ok.inj ruled).symm

theorem kindForm_of_tightKind (tightened : Definition.tightKind value = .ok result) :
    KindForm value (.ofText? result) := by
  cases value with
  | text written =>
    cases tightened
    exact .tight (Text.free_removeBlanks written) (Text.toList_removeBlanks written)
  | null | bool | number | list | record => cases tightened

theorem OrKept.tight_of_present {raw kind : Json} (kinded : OrKept KindForm raw kind)
    (present : kind.present = true) : ∃ shown, kind = .text shown ∧ Free isBlank shown := by
  unfold OrKept at kinded
  split at kinded
  · cases kinded with
    | tight free => exact ⟨_, rfl, free⟩
  · rename_i absent
    rw [kinded] at present
    exact absurd present absent

end Union

/-- A member and the one that stands in its place. -/
structure Member.Normal (raw shown : Member) : Prop where
  name : Union.NameForm raw.name shown.name
  param : Union.NameForm (raw.param.orElse raw.name) shown.param
  param_missing : shown.param = .null → shown.name = .null
  type : Union.TypeForm raw.type shown.type
  nodeArray : shown.nodeArray = raw.nodeArray
  modifiersArray : shown.modifiersArray = raw.modifiersArray
  optional : shown.optional = raw.optional
  readOnly : shown.readOnly = raw.readOnly
  converter : shown.converter = raw.converter

/-- A definition and the one that stands in its place. -/
structure Definition.Normal (raw shown : Definition) : Prop where
  kind : Union.OrKept Union.KindForm raw.kind shown.kind
  kind_tight : shown.kind.present = true → ∃ kind, shown.kind = .text kind ∧ Free isBlank kind
  type : Union.TypeForm (raw.type.orElse (raw.types.orElse raw.baseType)) shown.type
  types : Union.OrKept Union.TypeForm raw.types shown.types
  baseType : Union.OrKept Union.TypeForm raw.baseType shown.baseType
  name : Union.NameForm (raw.name.orElse (shown.kind.orElse shown.type)) shown.name
  /-- A name that is derived has no white space. -/
  name_tight : raw.name.present = false → ∀ name, shown.name = .text name → Free isBlank name
  name_missing : shown.name = .null →
    raw.name.present = false ∧ shown.kind.present = false ∧ shown.type.present = false
  members : Option.Rel (List.Forall₂ Member.Normal) raw.members shown.members

theorem Member.Canonizes.normal {raw shown : Member} (canonizes : raw.Canonizes shown) :
    raw.Normal shown := by
  obtain ⟨name, named, sameName⟩ := canonizes.name
  obtain ⟨param, parametric, sameParam⟩ := canonizes.param
  obtain ⟨type, typed, sameType⟩ := canonizes.type
  rw [← apply_ite Union.identifierOf] at parametric
  have nameForm := Union.nameForm_of_identifierOf named
  have paramForm : Union.NameForm (raw.param.orElse raw.name) (.ofText? param) :=
    Union.nameForm_of_identifierOf parametric
  rw [← sameName] at nameForm
  rw [← sameParam] at paramForm
  have flags := canonizes.flags
  refine ⟨nameForm, paramForm, ?_, ?_, ?_, ?_, ?_, ?_, ?_⟩
  · intro missing
    have absent := paramForm.absent_of_null missing
    rw [Json.present_orElse, Bool.or_eq_false_iff] at absent
    exact nameForm.null_of_absent absent.2
  · rw [sameType]
    exact Union.typeForm_of_canonicalOf typed
  all_goals rw [flags]

namespace Definition.Canonizes

variable {raw shown : Definition}

/-- A name that is taken from a kind or a type has no white space. -/
theorem free_name (canonizes : raw.Canonizes shown) (derived : raw.name.present = false)
    {name : String} (same : shown.name = .text name) : Free isBlank name := by
  have kinded := Union.orKept_of_ruled (fun _ => Union.kindForm_of_tightKind) canonizes.kind
  obtain ⟨type, typed, -, identified, named, sameName⟩ := canonizes.type
  rw [Json.orElse_of_absent derived] at named
  rw [same] at sameName
  cases identified with
  | none => cases sameName
  | some spelled =>
    cases sameName
    obtain ⟨source, taken, -, made⟩ := Union.exists_of_ofValue_eq_some named
    cases made
    by_cases present : shown.kind.present = true
    · obtain ⟨kind, sameKind, free⟩ := kinded.tight_of_present present
      rw [Json.orElse_of_present present, sameKind] at taken
      cases taken
      exact Union.free_identifier free
    · rw [Json.orElse_of_absent (eq_false_of_ne_true present)] at taken
      cases type with
      | none => cases taken
      | some written =>
        cases taken
        obtain ⟨_, -, -, canonical⟩ := Union.exists_of_ofValue_eq_some typed
        exact Union.free_identifier_of_canonical canonical

/-- The canonical form of a definition is in normal form. -/
theorem normal (canonizes : raw.Canonizes shown) : raw.Normal shown := by
  have kinded := Union.orKept_of_ruled (fun _ => Union.kindForm_of_tightKind) canonizes.kind
  obtain ⟨type, typed, sameType, name, named, sameName⟩ := canonizes.type
  have nameForm := Union.nameForm_of_identifierOf named
  rw [← sameType, ← sameName] at nameForm
  refine ⟨kinded, kinded.tight_of_present, ?_,
    Union.orKept_of_ruled (fun _ => Union.typeForm_of_canonicalOf) canonizes.types,
    Union.orKept_of_ruled (fun _ => Union.typeForm_of_canonicalOf) canonizes.baseType,
    nameForm, fun derived name => canonizes.free_name derived, ?_, ?_⟩
  · rw [sameType]
    exact Union.typeForm_of_canonicalOf typed
  · intro missing
    have absent := nameForm.absent_of_null missing
    rwa [Json.present_orElse, Json.present_orElse, Bool.or_eq_false_iff,
      Bool.or_eq_false_iff] at absent
  · have paired := canonizes.members
    generalize raw.members = before at paired
    generalize shown.members = after at paired
    cases paired with
    | none => exact .none
    | some each => exact .some (each.imp fun _ _ => Member.Canonizes.normal)

end Definition.Canonizes

namespace Draft

/-- Where indexing succeeds it leaves every definition in normal form, in the place of the one that
it was made from. -/
theorem index_normalizes {before after : Draft}
    (indexed : before.apply .index = (.ok (), after)) :
    List.Forall₂ Definition.Normal before.definitions after.definitions := by
  unfold apply at indexed
  cases made : Catalog.ofDefinitions before.definitions with
  | error fault => rw [made] at indexed; cases indexed
  | ok catalog =>
    rw [made] at indexed
    cases indexed
    exact (Catalog.ofDefinitions_eq_ok made).1.imp fun _ _ => Definition.Canonizes.normal

/-- A union whose member has bars in its name and white space for a type, and a definition of white
space. -/
def sampleRough : Draft where
  definitions := [
    { types := .text "C |A| A", baseType := .number (.whole 0), members := some [
      { name := .text "left | right", type := .text " ", converter := .text "as",
        optional := true }] },
    { kind := .text " ", type := .text "\t" }]

theorem sample_index_normalizes :
    ∃ after, sampleRough.apply .index = (.ok (), after) ∧
      List.Forall₂ Definition.Normal sampleRough.definitions after.definitions ∧
      after.definitions.map Definition.type = [.text "A | A | C", .null] ∧
      after.definitions.map Definition.name = [.text "AOrAOrC", .null] ∧
      (after.definitions.flatMap Definition.memberList).map Member.param =
        [.text "leftOrright"] := by
  have indexed : sampleRough.apply .index = (.ok (), (sampleRough.apply .index).2) := by cbv
  refine ⟨_, indexed, index_normalizes indexed, ?_, ?_, ?_⟩ <;> cbv

end Draft

end NodeSmith
