import NodeSmith.Catalog
import NodeSmith.Json.Printer
import NodeSmith.Proofs.Outcome
import NodeSmith.Proofs.Union.Characters

set_option autoImplicit false

namespace NodeSmith

open Outcome Text

/-- A member and its canonical form, field by field. -/
structure Member.Canonizes (raw shown : Member) : Prop where
  name : ∃ name, Union.identifierOf raw.name = .ok name ∧ shown.name = .ofText? name
  param : ∃ param, (if raw.param.present then Union.identifierOf raw.param
    else Union.identifierOf raw.name) = .ok param ∧ shown.param = .ofText? param
  type : ∃ type, Union.canonicalOf raw.type = .ok type ∧ shown.type = .ofText? type
  flags : shown = { raw with name := shown.name, param := shown.param, type := shown.type }

/-- A definition and its canonical form, field by field. -/
structure Definition.Canonizes (raw shown : Definition) : Prop where
  kind : ruled tightKind raw.kind = .ok shown.kind
  type : ∃ type, Union.canonicalOf (raw.type.orElse (raw.types.orElse raw.baseType)) = .ok type ∧
    shown.type = .ofText? type ∧ ∃ name, Union.identifierOf
      (raw.name.orElse (shown.kind.orElse (.ofText? type))) = .ok name ∧ shown.name = .ofText? name
  types : ruled Union.canonicalOf raw.types = .ok shown.types
  baseType : ruled Union.canonicalOf raw.baseType = .ok shown.baseType
  members : Option.Rel (List.Forall₂ Member.Canonizes) raw.members shown.members

theorem Member.canonizes_of_canonical_eq_ok {raw shown : Member}
    (made : raw.canonical = .ok shown) : raw.Canonizes shown := by
  obtain ⟨name, named, made⟩ := bind_eq_ok.mp made
  have parametric : ∃ param, (if raw.param.present then Union.identifierOf raw.param
      else Union.identifierOf raw.name) = .ok param ∧
        (Union.canonicalOf raw.type >>= fun type => pure { raw with
          name := .ofText? name, param := .ofText? param, type := .ofText? type }) =
          Except.ok shown := by
    cases given : raw.param.present with
    | true =>
      rw [given] at made
      exact bind_eq_ok.mp made
    | false =>
      rw [given] at made
      exact ⟨name, named, made⟩
  obtain ⟨param, parametric, made⟩ := parametric
  obtain ⟨type, typed, made⟩ := bind_eq_ok.mp made
  have same := pure_eq_ok.mp made
  subst same
  exact ⟨⟨name, named, rfl⟩, ⟨param, parametric, rfl⟩, ⟨type, typed, rfl⟩, rfl⟩

theorem Definition.canonizes_of_canonical_eq_ok {raw shown : Definition}
    (made : raw.canonical = .ok shown) : raw.Canonizes shown := by
  unfold Definition.canonical at made
  obtain ⟨kind, kinded, made⟩ := bind_eq_ok.mp made
  obtain ⟨type, typed, made⟩ := bind_eq_ok.mp made
  obtain ⟨types, united, made⟩ := bind_eq_ok.mp made
  obtain ⟨baseType, based, made⟩ := bind_eq_ok.mp made
  obtain ⟨name, named, made⟩ := bind_eq_ok.mp made
  obtain ⟨members, listed, made⟩ := bind_eq_ok.mp made
  have same := pure_eq_ok.mp made
  subst same
  refine ⟨kinded, ⟨type, typed, rfl, name, named, rfl⟩, united, based, ?_⟩
  cases given : raw.members with
  | none =>
    rw [given] at listed
    cases listed
    exact .none
  | some items =>
    rw [given] at listed
    obtain ⟨shownItems, each, more⟩ := bind_eq_ok.mp listed
    cases more
    exact .some ((forall₂_of_mapM_eq_ok each).imp fun _ _ => Member.canonizes_of_canonical_eq_ok)

theorem Member.canonical_eq_ok_iff {raw shown : Member} :
    raw.canonical = .ok shown ↔ raw.Canonizes shown := by
  refine ⟨canonizes_of_canonical_eq_ok, fun canonizes => ?_⟩
  obtain ⟨name, named, sameName⟩ := canonizes.name
  obtain ⟨param, parametric, sameParam⟩ := canonizes.param
  obtain ⟨type, typed, sameType⟩ := canonizes.type
  rw [canonizes.flags, sameName, sameParam, sameType, canonical, named, ok_bind]
  cases given : raw.param.present with
  | true =>
    rw [if_pos given] at parametric
    rw [if_pos rfl, parametric, ok_bind, typed]
    rfl
  | false =>
    rw [if_neg (ne_true_of_eq_false given), named] at parametric
    rw [if_neg Bool.false_ne_true, ← Except.ok.inj parametric, typed]
    rfl

theorem Definition.canonical_eq_ok_iff {raw shown : Definition} :
    raw.canonical = .ok shown ↔ raw.Canonizes shown := by
  refine ⟨canonizes_of_canonical_eq_ok, fun canonizes => ?_⟩
  obtain ⟨type, typed, sameType, name, named, sameName⟩ := canonizes.type
  have listed : raw.members.mapM (fun members => members.mapM Member.canonical) =
      Except.ok shown.members := by
    have paired := canonizes.members
    generalize raw.members = before at paired ⊢
    generalize shown.members = after at paired ⊢
    cases paired with
    | none => rfl
    | some each =>
      have made := mapM_eq_ok_of_forall₂ (each.imp fun _ _ => Member.canonical_eq_ok_iff.mpr)
      change some <$> List.mapM Member.canonical _ = _
      rw [made]
      rfl
  rw [canonical, canonizes.kind, ok_bind, typed, ok_bind, canonizes.types, ok_bind,
    canonizes.baseType, ok_bind, named, ok_bind, listed, ok_bind, ← sameType, ← sameName]
  rfl

theorem Definition.ruled_eq_ok {rule : Json → Except Fault (Option String)} {value made : Json}
    (ruled : ruled rule value = .ok made) :
    (∃ shown, rule value = .ok shown ∧ made = .ofText? shown) ∨
      value.present = false ∧ made = value := by
  unfold Definition.ruled at ruled
  split at ruled
  · cases given : rule value with
    | error fault => rw [given] at ruled; cases ruled
    | ok shown =>
      rw [given] at ruled
      exact .inl ⟨shown, rfl, (Except.ok.inj ruled).symm⟩
  · rename_i absent
    exact .inr ⟨eq_false_of_ne_true absent, (Except.ok.inj ruled).symm⟩

theorem Definition.ruled_tightKind_text (written : String) :
    ruled tightKind (.text written) = .ok (.text (removeBlanks written)) := by
  by_cases empty : written = ""
  · rw [empty]
    rfl
  · have present : (Json.text written).present = true := by
      rw [Json.present_text, String.isEmpty_eq_false_iff.mpr empty, Bool.not_false]
    rw [ruled, if_pos present]
    rfl

theorem Catalog.ofDefinitions_eq_ok {raws : List Definition} {catalog : Catalog}
    (made : Catalog.ofDefinitions raws = .ok catalog) :
    List.Forall₂ Definition.Canonizes raws catalog.definitions ∧
      catalog.tables = Tables.addAll {} 0
        ((raws.map fun raw => raw.type.present).zip catalog.definitions) := by
  obtain ⟨shown, each, made⟩ := bind_eq_ok.mp made
  have same := pure_eq_ok.mp made
  subst same
  exact ⟨(forall₂_of_mapM_eq_ok each).imp fun _ _ => Definition.canonizes_of_canonical_eq_ok, rfl⟩

theorem Catalog.ofSchema_eq_ok {schema : Json} {catalog : Catalog}
    (made : Catalog.ofSchema schema = .ok catalog) :
    ∃ raws, Definition.listOfJson schema = .ok raws ∧ Catalog.ofDefinitions raws = .ok catalog :=
  bind_eq_ok.mp made

/-- Every definition of a catalog is the canonical form of another. -/
theorem Catalog.exists_canonizes {schema : Json} {catalog : Catalog}
    (made : Catalog.ofSchema schema = .ok catalog) {shown : Definition}
    (member : shown ∈ catalog.definitions) : ∃ raw : Definition, raw.Canonizes shown := by
  obtain ⟨raws, -, indexed⟩ := Catalog.ofSchema_eq_ok made
  obtain ⟨raw, -, canonizes⟩ :=
    exists_of_mem_right (Catalog.ofDefinitions_eq_ok indexed).1 member
  exact ⟨raw, canonizes⟩

/-- Only of a visible text something is made. -/
theorem Union.exists_of_ofValue_eq_some {α : Type} {rule : String → Option α} {value : Json}
    {result : α} (made : ofValue rule value = .ok (some result)) :
    ∃ text, value = .text text ∧ text ≠ "" ∧ rule text = some result := by
  cases value with
  | text written =>
    rw [ofValue_text] at made
    have chosen := Except.ok.inj made
    split at chosen
    · cases chosen
    · rename_i visible
      exact ⟨written, rfl, visible, chosen⟩
  | null | bool | number | list | record =>
    unfold ofValue at made
    dsimp only at made
    split at made <;> cases made

/-- A type in canonical form reads as one line, also where there is none. -/
theorem Union.canonicalOf_unbroken {value : Json} {type : Option String}
    (made : canonicalOf value = .ok type) : Free isBreak (Json.ofText? type).display := by
  cases type with
  | none =>
    change Free isBreak "None"
    decide
  | some shown =>
    obtain ⟨text, -, -, canonical⟩ := exists_of_ofValue_eq_some made
    exact canonical_unbroken canonical

theorem Union.bar_not_mem_identifierOf {value : Json} {name : Option String}
    (made : identifierOf value = .ok name) : '|' ∉ (Json.ofText? name).display.toList := by
  cases name with
  | none =>
    change '|' ∉ "None".toList
    decide
  | some shown =>
    obtain ⟨text, -, -, named⟩ := exists_of_ofValue_eq_some made
    have same : identifier text = shown := Option.some.inj named
    rw [← same]
    exact bar_not_mem_identifier text

theorem Member.Canonizes.type_unbroken {raw shown : Member} (canonizes : raw.Canonizes shown) :
    Free isBreak shown.type.display := by
  obtain ⟨type, made, same⟩ := canonizes.type
  rw [same]
  exact Union.canonicalOf_unbroken made

theorem Member.Canonizes.bar_not_mem_name {raw shown : Member} (canonizes : raw.Canonizes shown) :
    '|' ∉ shown.name.display.toList := by
  obtain ⟨name, made, same⟩ := canonizes.name
  rw [same]
  exact Union.bar_not_mem_identifierOf made

theorem Member.Canonizes.bar_not_mem_param {raw shown : Member} (canonizes : raw.Canonizes shown) :
    '|' ∉ shown.param.display.toList := by
  obtain ⟨param, made, same⟩ := canonizes.param
  rw [same]
  split at made <;> exact Union.bar_not_mem_identifierOf made

theorem Definition.Canonizes.type_unbroken {raw shown : Definition}
    (canonizes : raw.Canonizes shown) : Free isBreak shown.type.display := by
  obtain ⟨type, made, same, -⟩ := canonizes.type
  rw [same]
  exact Union.canonicalOf_unbroken made

/-- A kind that nodes can be created from has no white space, and so no break. -/
theorem Definition.Canonizes.kind_unbroken {raw shown : Definition}
    (canonizes : raw.Canonizes shown) (creatable : shown.creatable = true) :
    Free isBreak shown.kind.display := by
  have made := canonizes.kind
  unfold ruled at made
  split at made
  · unfold tightKind Union.tightOf at made
    cases given : raw.kind with
    | text written =>
      rw [given] at made
      have same : Json.text (removeBlanks written) = shown.kind := Except.ok.inj made
      rw [← same]
      intro c member
      have kept : c ∈ (removeBlanks written).toList := member
      rw [toList_removeBlanks, List.mem_filter] at kept
      cases broken : isBreak c with
      | false => rfl
      | true =>
        rw [Union.isBlank_of_isBreak broken] at kept
        exact absurd kept.2 Bool.false_ne_true
    | null | bool | number | list | record =>
      rw [given] at made
      cases made
  · rename_i absent
    unfold Definition.creatable at creatable
    rw [← Except.ok.inj made] at creatable
    exact absurd creatable absent

/-- Members in canonical form, side by side with those they are made from. -/
theorem Definition.Canonizes.forall₂_memberList {raw shown : Definition}
    (canonizes : raw.Canonizes shown) :
    List.Forall₂ Member.Canonizes raw.memberList shown.memberList := by
  have paired := canonizes.members
  unfold memberList
  generalize raw.members = before at paired ⊢
  generalize shown.members = after at paired ⊢
  cases paired with
  | none => exact .nil
  | some each => exact each

theorem Definition.Canonizes.exists_member {raw shown : Definition}
    (canonizes : raw.Canonizes shown) {member : Member} (found : member ∈ shown.memberList) :
    ∃ before : Member, before.Canonizes member := by
  obtain ⟨before, -, made⟩ := exists_of_mem_right canonizes.forall₂_memberList found
  exact ⟨before, made⟩

end NodeSmith
