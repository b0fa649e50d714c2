import Mathlib
import NodeSmith.Proofs.Catalog.Canonical
import NodeSmith.Proofs.Union.Keys

set_option autoImplicit false

namespace NodeSmith

open Outcome
open Text (Visible removeBlanks)

section Folds

variable {α β σ : Type} {register : σ → α → σ} {found : α → Bool} {value : α → β}

/-- Where each item that is found takes the place of what was observed, the last one remains. -/
theorem observe_foldl_last (observe : σ → Option β)
    (each : ∀ table item, observe (register table item) =
      if found item then some (value item) else observe table)
    (items : List α) (table : σ) :
    observe (items.foldl register table) =
      ((items.filter found).getLast?.map value).or (observe table) := by
  induction items generalizing table with
  | nil => rfl
  | cons item rest ih =>
    rw [List.foldl_cons, ih, each]
    by_cases here : found item = true
    · rw [List.filter_cons_of_pos here, List.getLast?_cons, if_pos here]
      cases (rest.filter found).getLast? <;> rfl
    · rw [List.filter_cons_of_neg here, if_neg here]

/-- Where each item that is found goes behind what was observed, all of them remain, in order. -/
theorem observe_foldl_all (observe : σ → List β)
    (each : ∀ table item, observe (register table item) =
      if found item then observe table ++ [value item] else observe table)
    (items : List α) (table : σ) :
    observe (items.foldl register table) = observe table ++ (items.filter found).map value := by
  induction items generalizing table with
  | nil => rw [List.foldl_nil, List.filter_nil, List.map_nil, List.append_nil]
  | cons item rest ih =>
    rw [List.foldl_cons, ih, each]
    by_cases here : found item = true
    · rw [List.filter_cons_of_pos here, if_pos here, List.map_cons, List.append_assoc,
        List.singleton_append]
    · rw [List.filter_cons_of_neg here, if_neg here]

end Folds

def Definition.kindKey (definition : Definition) : Option String :=
  match definition.kind with
  | .text kind => if kind = "" then none else some kind
  | _ => none

namespace Tables

variable (tables : Tables) (authored : Bool) (entry : Entry) (key : String)

theorem addKind_eq : tables.addKind entry =
    match entry.definition.kindKey with
    | some kind => { tables with kinds := Assoc.insert tables.kinds kind entry }
    | none => tables := by
  unfold addKind Definition.kindKey
  cases entry.definition.kind with
  | text kind => by_cases empty : kind = "" <;> simp only [empty, ↓reduceIte]
  | null | bool | number | list | record => rfl

theorem kinds_add : (tables.add authored entry).kinds =
    match entry.definition.kindKey with
    | some kind => Assoc.insert tables.kinds kind entry
    | none => tables.kinds := by
  have same : (tables.add authored entry).kinds = (tables.addKind entry).kinds := by
    unfold add addSubtype
    cases authored <;> dsimp only <;> split <;> rfl
  rw [same, addKind_eq]
  cases entry.definition.kindKey <;> rfl

theorem types_add : (tables.add authored entry).types =
    if authored then
      Assoc.insert tables.types (Union.keyOfCanonical entry.definition.type) entry
    else tables.types := by
  have kept : (tables.addKind entry).types = tables.types := by
    rw [addKind_eq]
    split <;> rfl
  have same : (tables.add authored entry).types =
      (if authored then (tables.addKind entry).addType entry else tables.addKind entry).types := by
    unfold add addSubtype
    dsimp only
    split <;> rfl
  rw [same]
  cases authored with
  | false => exact kept
  | true => simp only [↓reduceIte, addType, kept]

theorem subtypes_add : (tables.add authored entry).subtypes =
    match Union.keyOfCanonical entry.definition.baseType with
    | some base =>
      Assoc.insert tables.subtypes base
        ((Assoc.get? tables.subtypes base).getD [] ++ [entry])
    | none => tables.subtypes := by
  have kept : (if authored then (tables.addKind entry).addType entry
      else tables.addKind entry).subtypes = tables.subtypes := by
    rw [addKind_eq]
    cases authored <;> cases entry.definition.kindKey <;> rfl
  unfold add addSubtype
  dsimp only
  cases Union.keyOfCanonical entry.definition.baseType with
  | none => exact kept
  | some base => simp only [kept]

theorem get?_kinds_add : Assoc.get? (tables.add authored entry).kinds key =
    if entry.definition.kindKey == some key then some entry else Assoc.get? tables.kinds key := by
  rw [kinds_add]
  cases entry.definition.kindKey with
  | none => rfl
  | some kind => simp only [Assoc.get?_insert, beq_iff_eq, Option.some.injEq]

theorem get?_types_add (typeKey : Option String) :
    Assoc.get? (tables.add authored entry).types typeKey =
      if authored && Union.keyOfCanonical entry.definition.type == typeKey then some entry
      else Assoc.get? tables.types typeKey := by
  rw [types_add]
  cases authored with
  | false => simp only [Bool.false_eq_true, ↓reduceIte, Bool.false_and]
  | true => simp only [↓reduceIte, Assoc.get?_insert, Bool.true_and, beq_iff_eq]

theorem get?_subtypes_add : (Assoc.get? (tables.add authored entry).subtypes key).getD [] =
    if Union.keyOfCanonical entry.definition.baseType == some key then
      (Assoc.get? tables.subtypes key).getD [] ++ [entry]
    else (Assoc.get? tables.subtypes key).getD [] := by
  rw [subtypes_add]
  cases Union.keyOfCanonical entry.definition.baseType with
  | none => rfl
  | some base =>
    simp only [Assoc.get?_insert, beq_iff_eq, Option.some.injEq]
    by_cases here : base = key
    · subst here
      simp only [↓reduceIte, Option.getD_some]
    · simp only [here, ↓reduceIte]

end Tables

namespace Union

/-- The key of a value with a visible character. -/
def visibleKey : Json → Option String
  | .text written => if key written = "" then none else some (key written)
  | _ => none

/-- Whether a value lists the same members as a text. -/
def spells (text : String) : Json → Bool
  | .text written => decide (SameMembers written text)
  | _ => false

theorem visibleKey_eq_some_iff {text : String} (visible : Visible text) (value : Json) :
    (visibleKey value == some (key text)) = spells text value := by
  have some : key text ≠ "" := key_ne_empty visible
  cases value with
  | text written =>
    rw [visibleKey, spells, Bool.eq_iff_iff, beq_iff_eq, decide_eq_true_iff, ← key_eq_key_iff]
    by_cases blank : key written = ""
    · simp only [blank, ↓reduceIte, reduceCtorEq, false_iff]
      exact some.symm
    · simp only [blank, ↓reduceIte, Option.some.injEq]
  | null | bool | number | list | record => rfl

/-- Only a text with a visible character has a key that can be asked for. -/
theorem visibleKey_eq_some_iff_exists {value : Json} {found : String} :
    visibleKey value = some found ↔
      ∃ text, value = .text text ∧ Visible text ∧ key text = found := by
  cases value with
  | text written =>
    simp only [visibleKey, Json.text.injEq, exists_eq_left']
    by_cases blank : key written = ""
    · have unseen := (key_eq_empty_iff written).mp blank
      simp only [blank, ↓reduceIte, reduceCtorEq, unseen, false_and]
    · have visible : Visible written := by
        by_contra unseen
        exact blank ((key_eq_empty_iff written).mpr unseen)
      simp only [blank, ↓reduceIte, Option.some.injEq, visible, true_and]
  | null | bool | number | list | record =>
    simp only [visibleKey, reduceCtorEq, false_and, exists_false]

theorem visibleKey_ne_empty (value : Json) : visibleKey value ≠ some "" := by
  cases value with
  | text written =>
    rw [visibleKey]
    by_cases blank : key written = ""
    · simp only [blank, ↓reduceIte, ne_eq, reduceCtorEq, not_false_eq_true]
    · simp only [blank, ↓reduceIte, ne_eq, Option.some.injEq, not_false_eq_true]
  | null | bool | number | list | record =>
    simp only [visibleKey, ne_eq, reduceCtorEq, not_false_eq_true]

theorem visibleKey_of_absent {value : Json} (absent : value.present = false) :
    visibleKey value = none := by
  cases value with
  | text written =>
    have empty : written = "" := by simpa using absent
    rw [visibleKey, empty, if_pos key_empty]
  | null | bool | number | list | record => rfl

theorem keyOfCanonical_canonical (text : String) :
    keyOfCanonical (.ofText? (canonical text)) = visibleKey (.text text) := by
  rw [canonical, visibleKey]
  by_cases blank : key text = ""
  · simp only [blank, ↓reduceIte]
    rfl
  · have shown : spaced (key text) ≠ "" := by
      intro none
      have same := key_spaced_key text
      rw [none] at same
      exact blank (same.symm.trans key_empty)
    simp only [blank, ↓reduceIte, Json.ofText?, keyOfCanonical, shown, key_spaced_key]

/-- A canonical form is registered under the key of the value that it is made from. -/
theorem keyOfCanonical_of_canonicalOf {value : Json} {type : Option String}
    (made : canonicalOf value = .ok type) : keyOfCanonical (.ofText? type) = visibleKey value := by
  cases value with
  | text written =>
    rw [canonicalOf, ofValue_text] at made
    by_cases empty : written = ""
    · rw [if_pos empty] at made
      rw [← Except.ok.inj made, visibleKey, empty, if_pos key_empty]
      rfl
    · rw [if_neg empty] at made
      rw [← Except.ok.inj made, keyOfCanonical_canonical]
  | null | bool | number | list | record =>
    cases type with
    | none => rfl
    | some shown =>
      obtain ⟨text, impossible, -⟩ := exists_of_ofValue_eq_some made
      cases impossible

theorem keyOfCanonical_of_ruled {value shown : Json}
    (made : Definition.ruled canonicalOf value = .ok shown) :
    keyOfCanonical shown = visibleKey value := by
  rcases Definition.ruled_eq_ok made with ⟨type, typed, rfl⟩ | ⟨absent, rfl⟩
  · exact keyOfCanonical_of_canonicalOf typed
  · rw [visibleKey_of_absent absent]
    cases shown with
    | text written =>
      have empty : written = "" := by simpa using absent
      rw [keyOfCanonical, if_pos empty]
    | null | bool | number | list | record => rfl

end Union

namespace Definition

/-- Whether a definition as it is written has a kind, up to white space. -/
def hasKind (kind : String) (definition : Definition) : Bool :=
  match definition.kind with
  | .text written => removeBlanks written == kind
  | _ => false

/-- Whether a definition has a type of its own, with the members of a text. -/
def hasType (text : String) (definition : Definition) : Bool :=
  definition.type.present && Union.spells text definition.type

/-- Whether a definition has a base type with the members of a text. -/
def hasBaseType (text : String) (definition : Definition) : Bool :=
  Union.spells text definition.baseType

variable {raw shown : Definition}

theorem Canonizes.kindKey_eq (canonizes : raw.Canonizes shown) {kind : String}
    (named : kind ≠ "") : (shown.kindKey == some kind) = raw.hasKind kind := by
  have made := canonizes.kind
  unfold kindKey hasKind
  cases given : raw.kind with
  | text written =>
    rw [given, ruled_tightKind_text] at made
    rw [← Except.ok.inj made]
    rw [Bool.eq_iff_iff, beq_iff_eq, beq_iff_eq]
    by_cases blank : removeBlanks written = ""
    · simp only [blank, ↓reduceIte, reduceCtorEq, false_iff]
      exact named.symm
    · simp only [blank, ↓reduceIte, Option.some.injEq]
  | null | bool | number | list | record =>
    rw [given] at made
    rcases ruled_eq_ok made with ⟨_, impossible, -⟩ | ⟨-, same⟩
    · cases impossible
    · rw [same]
      rfl

/-- An authored type is registered under the key of its members, if it has any. -/
theorem Canonizes.typeKey_eq (canonizes : raw.Canonizes shown) (key : String) :
    (raw.type.present && Union.keyOfCanonical shown.type == some key) =
      (Union.visibleKey raw.type == some key) := by
  cases authored : raw.type.present with
  | false =>
    rw [Union.visibleKey_of_absent authored]
    rfl
  | true =>
    obtain ⟨type, made, same, -⟩ := canonizes.type
    rw [Json.orElse, if_pos authored] at made
    rw [same, Union.keyOfCanonical_of_canonicalOf made, Bool.true_and]

theorem visibleKey_type_eq {text : String} (visible : Visible text) (definition : Definition) :
    (Union.visibleKey definition.type == some (Union.key text)) = definition.hasType text := by
  unfold hasType
  cases authored : definition.type.present with
  | false =>
    rw [Union.visibleKey_of_absent authored]
    rfl
  | true => rw [Union.visibleKey_eq_some_iff visible, Bool.true_and]

end Definition

/-- A definition as it is written, with the entry of its canonical form. -/
structure Listed where
  written : Definition
  entry : Entry

/-- Definitions and their canonical forms side by side, from a position on. -/
def Listed.pairs (position : Nat) (definitions canonical : List Definition) : List Listed :=
  ((definitions.zip canonical).zipIdx position).map fun item => ⟨item.1.1, item.2, item.1.2⟩

/-- The definitions that a catalog was made from, each with its entry. -/
def Catalog.listed (catalog : Catalog) (definitions : List Definition) : List Listed :=
  Listed.pairs 0 definitions catalog.definitions

theorem Tables.addAll_eq_foldl (tables : Tables) (position : Nat)
    (definitions canonical : List Definition) :
    tables.addAll position ((definitions.map fun raw => raw.type.present).zip canonical) =
      (Listed.pairs position definitions canonical).foldl
        (fun tables listed => tables.add listed.written.type.present listed.entry) tables := by
  induction definitions generalizing tables position canonical with
  | nil => rfl
  | cons definition rest ih =>
    cases canonical with
    | nil => rfl
    | cons shown more => exact ih (tables.add definition.type.present ⟨position, shown⟩) _ more

section Registered

variable (tables : Tables) (position : Nat) (definitions canonical : List Definition) (key : String)

theorem Tables.get?_kinds_addAll :
    Assoc.get? (tables.addAll position
        ((definitions.map fun raw => raw.type.present).zip canonical)).kinds key =
      (((Listed.pairs position definitions canonical).filter fun listed =>
          listed.entry.definition.kindKey == some key).getLast?.map Listed.entry).or
        (Assoc.get? tables.kinds key) := by
  rw [addAll_eq_foldl]
  apply observe_foldl_last fun tables : Tables => Assoc.get? tables.kinds key
  intro tables listed
  exact tables.get?_kinds_add _ listed.entry key

theorem Tables.get?_types_addAll (typeKey : Option String) :
    Assoc.get? (tables.addAll position
        ((definitions.map fun raw => raw.type.present).zip canonical)).types typeKey =
      (((Listed.pairs position definitions canonical).filter fun listed =>
          listed.written.type.present &&
            Union.keyOfCanonical listed.entry.definition.type == typeKey).getLast?.map
              Listed.entry).or
        (Assoc.get? tables.types typeKey) := by
  rw [addAll_eq_foldl]
  apply observe_foldl_last fun tables : Tables => Assoc.get? tables.types typeKey
  intro tables listed
  exact tables.get?_types_add _ listed.entry typeKey

theorem Tables.get?_subtypes_addAll :
    (Assoc.get? (tables.addAll position
        ((definitions.map fun raw => raw.type.present).zip canonical)).subtypes key).getD [] =
      (Assoc.get? tables.subtypes key).getD [] ++
        ((Listed.pairs position definitions canonical).filter fun listed =>
          Union.keyOfCanonical listed.entry.definition.baseType == some key).map Listed.entry := by
  rw [addAll_eq_foldl]
  apply observe_foldl_all fun tables : Tables => (Assoc.get? tables.subtypes key).getD []
  intro tables listed
  exact tables.get?_subtypes_add _ listed.entry key

end Registered

theorem Tables.findType_text (tables : Tables) (text : String) : tables.findType (.text text) =
    .ok (if text = "" then none else Assoc.get? tables.types (some (Union.key text))) := by
  rw [findType, Union.keyOf, Union.ofValue_text, ok_bind]
  by_cases empty : text = ""
  · rw [if_pos empty, if_pos empty]
    rfl
  · rw [if_neg empty, if_neg empty]
    rfl

theorem Tables.findSubtypes_text (tables : Tables) (text : String) :
    tables.findSubtypes (.text text) =
      .ok (if text = "" then [] else (Assoc.get? tables.subtypes (Union.key text)).getD []) := by
  rw [findSubtypes, Union.keyOf, Union.ofValue_text, ok_bind]
  by_cases empty : text = ""
  · rw [if_pos empty, if_pos empty]
    rfl
  · rw [if_neg empty, if_neg empty]
    rfl

namespace Catalog

variable {definitions : List Definition} {catalog : Catalog}

/-- Definitions and entries stand side by side in schema order, with the positions they have. -/
theorem listed_spec (lengths : definitions.length = catalog.definitions.length) :
    (catalog.listed definitions).map Listed.written = definitions ∧
      (catalog.listed definitions).map (fun listed => listed.entry.definition) =
        catalog.definitions ∧
      (catalog.listed definitions).map (fun listed => listed.entry.position) =
        List.range definitions.length := by
  have items := List.zipIdx_map_fst 0 (definitions.zip catalog.definitions)
  have positions := List.zipIdx_map_snd 0 (definitions.zip catalog.definitions)
  rw [List.length_zip, ← lengths, Nat.min_self, ← List.range_eq_range'] at positions
  have written : (catalog.listed definitions).map Listed.written =
      ((definitions.zip catalog.definitions).zipIdx.map Prod.fst).map Prod.fst := by
    rw [listed, Listed.pairs, List.map_map, List.map_map]
    rfl
  have shown : (catalog.listed definitions).map (fun listed => listed.entry.definition) =
      ((definitions.zip catalog.definitions).zipIdx.map Prod.fst).map Prod.snd := by
    rw [listed, Listed.pairs, List.map_map, List.map_map]
    rfl
  have placed : (catalog.listed definitions).map (fun listed => listed.entry.position) =
      (definitions.zip catalog.definitions).zipIdx.map Prod.snd := by
    rw [listed, Listed.pairs, List.map_map]
    rfl
  rw [written, shown, placed, items, positions, List.map_fst_zip (Nat.le_of_eq lengths),
    List.map_snd_zip (Nat.le_of_eq lengths.symm)]
  exact ⟨rfl, rfl, rfl⟩

section Indexed

variable (indexed : ofDefinitions definitions = .ok catalog)
include indexed

/-- The definitions of a catalog are the canonical forms of those it was made from. -/
theorem forall₂_canonical :
    List.Forall₂ (fun raw shown => raw.canonical = .ok shown) definitions catalog.definitions := by
  obtain ⟨shown, each, made⟩ := bind_eq_ok.mp indexed
  rw [← pure_eq_ok.mp made]
  exact forall₂_of_mapM_eq_ok each

theorem canonical_of_mem_listed {listed : Listed} (found : listed ∈ catalog.listed definitions) :
    listed.written.canonical = .ok listed.entry.definition := by
  obtain ⟨⟨pair, position⟩, member, rfl⟩ := List.mem_map.mp found
  exact (List.forall₂_iff_zip.mp (forall₂_canonical indexed)).2 (List.fst_mem_of_mem_zipIdx member)

theorem canonizes_of_mem_listed {listed : Listed} (found : listed ∈ catalog.listed definitions) :
    listed.written.Canonizes listed.entry.definition :=
  Definition.canonizes_of_canonical_eq_ok (canonical_of_mem_listed indexed found)

theorem get?_kinds {kind : String} (named : kind ≠ "") :
    Assoc.get? catalog.tables.kinds kind =
      ((catalog.listed definitions).filter fun listed =>
        listed.written.hasKind kind).getLast?.map Listed.entry := by
  rw [(ofDefinitions_eq_ok indexed).2, Tables.get?_kinds_addAll, Assoc.get?_nil, Option.or_none]
  congr 2
  apply List.filter_congr
  intro listed found
  exact (canonizes_of_mem_listed indexed found).kindKey_eq named

theorem get?_types (key : String) :
    Assoc.get? catalog.tables.types (some key) =
      ((catalog.listed definitions).filter fun listed =>
        Union.visibleKey listed.written.type == some key).getLast?.map Listed.entry := by
  rw [(ofDefinitions_eq_ok indexed).2, Tables.get?_types_addAll, Assoc.get?_nil, Option.or_none]
  congr 2
  apply List.filter_congr
  intro listed found
  exact (canonizes_of_mem_listed indexed found).typeKey_eq key

/-- Under a key stand all definitions whose base type has it. -/
theorem get?_subtypes (key : String) :
    (Assoc.get? catalog.tables.subtypes key).getD [] =
      ((catalog.listed definitions).filter fun listed =>
        Union.visibleKey listed.written.baseType == some key).map Listed.entry := by
  rw [(ofDefinitions_eq_ok indexed).2, Tables.get?_subtypes_addAll, Assoc.get?_nil,
    Option.getD_none, List.nil_append]
  congr 1
  apply List.filter_congr
  intro listed found
  rw [Union.keyOfCanonical_of_ruled (canonizes_of_mem_listed indexed found).baseType]

/-- What is asked for without a visible character is not found. -/
theorem find_of_not_visible {text : String} (blank : ¬Visible text) :
    catalog.tables.findType (.text text) = .ok none ∧
      catalog.tables.findSubtypes (.text text) = .ok [] := by
  have none : Union.key text = "" := (Union.key_eq_empty_iff text).mpr blank
  have other (value : Json) : (Union.visibleKey value == some "") = false :=
    beq_eq_false_iff_ne.mpr (Union.visibleKey_ne_empty value)
  rw [Tables.findType_text, Tables.findSubtypes_text, none, get?_types indexed,
    get?_subtypes indexed]
  simp only [other, List.filter_false, List.getLast?_nil, Option.map_none, List.map_nil, ite_self,
    and_self]

end Indexed

/-- The tables of a catalog find what the schema lists, and nothing else. -/
theorem lookups_exact (indexed : ofDefinitions definitions = .ok catalog) :
    ((catalog.listed definitions).map Listed.written = definitions ∧
      (catalog.listed definitions).map (fun listed => listed.entry.definition) =
        catalog.definitions ∧
      (catalog.listed definitions).map (fun listed => listed.entry.position) =
        List.range definitions.length ∧
      ∀ listed ∈ catalog.listed definitions,
        listed.written.canonical = .ok listed.entry.definition) ∧
    (∀ kind, kind ≠ "" → catalog.tables.findKind (.text kind) =
      .ok (((catalog.listed definitions).filter fun listed =>
        listed.written.hasKind kind).getLast?.map Listed.entry)) ∧
    (∀ text, Visible text →
      catalog.tables.findType (.text text) =
        .ok (((catalog.listed definitions).filter fun listed =>
          listed.written.hasType text).getLast?.map Listed.entry) ∧
      catalog.tables.findSubtypes (.text text) =
        .ok (((catalog.listed definitions).filter fun listed =>
          listed.written.hasBaseType text).map Listed.entry)) ∧
    ∀ value, (value = .null ∨ ∃ text, value = .text text ∧ ¬Visible text) →
      catalog.tables.findType value = .ok none ∧ catalog.tables.findSubtypes value = .ok [] := by
  obtain ⟨written, shown, positions⟩ := listed_spec (ofDefinitions_eq_ok indexed).1.length_eq
  refine ⟨⟨written, shown, positions, fun _ => canonical_of_mem_listed indexed⟩, ?_, ?_, ?_⟩
  · intro kind named
    rw [Tables.findKind, get?_kinds indexed named]
  · intro text visible
    have some : text ≠ "" := by
      rintro rfl
      exact (Union.key_eq_empty_iff "").mp Union.key_empty visible
    rw [Tables.findType_text, Tables.findSubtypes_text, if_neg some, if_neg some,
      get?_types indexed, get?_subtypes indexed]
    simp only [Definition.visibleKey_type_eq visible, Union.visibleKey_eq_some_iff visible,
      Definition.hasBaseType, and_self]
  · rintro value (rfl | ⟨text, rfl, blank⟩)
    · exact ⟨rfl, rfl⟩
    · exact find_of_not_visible indexed blank

/-- Definitions of one kind and one type in two spellings, one whose type is white space, and one
whose type is derived. -/
def sampleListing : List Definition := [
  { kind := .text "Sum", type := .text "B|A", baseType := .text "Node" },
  { kind := .text " Sum", type := .text "A | B", baseType := .text " Node" },
  { type := .text " ", baseType := .text " " },
  { types := .text "A|B", name := .text "Union" }]

def sampleListingCatalog : Catalog where
  definitions := [
    { kind := .text "Sum", type := .text "A | B", baseType := .text "Node", name := .text "Sum" },
    { kind := .text "Sum", type := .text "A | B", baseType := .text "Node", name := .text "Sum" },
    {},
    { type := .text "A | B", types := .text "A | B", name := .text "Union" }]
  tables :=
    let sum : Definition :=
      { kind := .text "Sum", type := .text "A | B", baseType := .text "Node", name := .text "Sum" }
    { kinds := [("Sum", ⟨1, sum⟩)]
      types := [(some "A|B", ⟨1, sum⟩), (none, ⟨2, {}⟩)]
      subtypes := [("Node", [⟨0, sum⟩, ⟨1, sum⟩])] }

theorem ofDefinitions_sampleListing :
    ofDefinitions sampleListing = .ok sampleListingCatalog := by
  cbv

theorem sample_lookups_exact :
    (sampleListingCatalog.tables.findKind (.text "Sum")).map (Option.map Entry.position) =
        .ok (some 1) ∧
      (sampleListingCatalog.tables.findType (.text "B |A")).map (Option.map Entry.position) =
        .ok (some 1) ∧
      (sampleListingCatalog.tables.findSubtypes (.text "Node ")).map (List.map Entry.position) =
        .ok [0, 1] ∧
      sampleListingCatalog.tables.findType (.text " ") = .ok none := by
  obtain ⟨-, kinds, types, others⟩ := lookups_exact ofDefinitions_sampleListing
  have union : Visible "B |A" := ⟨'B', by decide, rfl⟩
  have node : Visible "Node " := ⟨'N', by decide, rfl⟩
  have blank : ¬Visible " " := by
    rw [← Text.removeBlanks_eq_empty_iff]
    rfl
  rw [kinds "Sum" (by decide), (types "B |A" union).1, (types "Node " node).2,
    (others (.text " ") (.inr ⟨" ", rfl, blank⟩)).1]
  refine ⟨?_, ?_, ?_, rfl⟩ <;> cbv

end Catalog

end NodeSmith
