import NodeSmith.Proofs.Catalog.Faults
import NodeSmith.Proofs.Catalog.Tables
import NodeSmith.Proofs.Union.Separators
import NodeSmith.Proofs.Union.Spelling

set_option autoImplicit false

namespace NodeSmith

open Outcome
open Text (Visible removeBlanks)

namespace Json

/-- Whether a value is a text with a visible character. -/
def Shows (value : Json) : Prop := ∃ text, value = .text text ∧ Visible text

/-- Whether a value is a text of nothing but white space. -/
def Blank (value : Json) : Prop := ∃ text, value = .text text ∧ text ≠ "" ∧ ¬Visible text

theorem present_orElse (value other : Json) :
    (value.orElse other).present = (value.present || other.present) := by
  unfold orElse
  split
  · rename_i present
    rw [present, Bool.true_or]
  · rename_i absent
    rw [eq_false_of_ne_true absent, Bool.false_or]

theorem orElse_of_present {value : Json} (present : value.present = true) (other : Json) :
    value.orElse other = value := if_pos present

theorem orElse_of_absent {value : Json} (absent : value.present = false) (other : Json) :
    value.orElse other = other := if_neg (ne_true_of_eq_false absent)

theorem Shows.present {value : Json} (shown : value.Shows) : value.present = true := by
  obtain ⟨text, rfl, visible⟩ := shown
  rw [present_text, Bool.not_eq_true', String.isEmpty_eq_false_iff]
  exact visible.ne_empty

theorem shows_orElse (value other : Json) :
    (value.orElse other).Shows ↔ value.Shows ∨ value.present = false ∧ other.Shows := by
  by_cases given : value.present = true
  · rw [orElse_of_present given, given]
    simp only [Bool.true_eq_false, false_and, or_false]
  · have hidden : ¬value.Shows := fun shown => given shown.present
    rw [orElse_of_absent (eq_false_of_ne_true given), eq_false_of_ne_true given]
    simp only [hidden, true_and, false_or]

theorem Blank.present {value : Json} (blank : value.Blank) : value.present = true := by
  obtain ⟨text, rfl, some, -⟩ := blank
  rwa [present_text, Bool.not_eq_true', String.isEmpty_eq_false_iff]

theorem Blank.not_shows {value : Json} (blank : value.Blank) : ¬value.Shows := by
  obtain ⟨text, rfl, -, unseen⟩ := blank
  rintro ⟨_, same, visible⟩
  cases same
  exact unseen visible

/-- A text that is present and shows nothing is white space. -/
theorem blank_iff {value : Json} (textual : value.Textual) :
    value.Blank ↔ value.present = true ∧ ¬value.Shows := by
  refine ⟨fun blank => ⟨blank.present, blank.not_shows⟩, ?_⟩
  rintro ⟨present, hidden⟩
  cases value with
  | text written =>
    rw [present_text, Bool.not_eq_true', String.isEmpty_eq_false_iff] at present
    exact ⟨written, rfl, present, fun visible => hidden ⟨written, rfl, visible⟩⟩
  | null | bool | number | list | record =>
    have absent := textual.absent rfl
    rw [present] at absent
    cases absent

end Json

namespace Union

variable {value : Json} {made : Option String}

theorem canonicalOf_again (canonized : canonicalOf value = .ok made) :
    canonicalOf (.ofText? made) = .ok made := by
  cases made with
  | none => rfl
  | some shown =>
    obtain ⟨text, -, -, canonical⟩ := exists_of_ofValue_eq_some canonized
    rw [Json.ofText?, canonicalOf, ofValue_text, if_neg (canonical_ne_empty canonical),
      canonical_of_canonical canonical]

theorem identifierOf_again (named : identifierOf value = .ok made) :
    identifierOf (.ofText? made) = .ok made := by
  cases made with
  | none => rfl
  | some shown =>
    obtain ⟨text, -, given, same⟩ := exists_of_ofValue_eq_some named
    have identified : identifier text = shown := Option.some.inj same
    rw [Json.ofText?, identifierOf, ofValue_text, ← identified,
      if_neg (identifier_ne_empty given), identifier_identifier]

theorem present_canonicalOf_iff (canonized : canonicalOf value = .ok made) :
    (Json.ofText? made).present = true ↔ value.Shows := by
  constructor
  · intro present
    obtain ⟨shown, rfl, -⟩ := (Json.present_ofText? made).mp present
    obtain ⟨text, rfl, -, canonical⟩ := exists_of_ofValue_eq_some canonized
    refine ⟨text, rfl, ?_⟩
    by_contra unseen
    rw [Union.canonical, if_pos ((key_eq_empty_iff text).mpr unseen)] at canonical
    cases canonical
  · rintro ⟨text, rfl, visible⟩
    have some := canonicalOf_visible visible
    rw [canonized] at some
    rw [Except.ok.inj some] at canonized ⊢
    obtain ⟨_, -, -, canonical⟩ := exists_of_ofValue_eq_some canonized
    exact (Json.present_ofText? _).mpr ⟨_, rfl, canonical_ne_empty canonical⟩

/-- A canonical form is missing only as a whole. -/
theorem ofText?_ne_null_iff (canonized : canonicalOf value = .ok made) :
    Json.ofText? made ≠ .null ↔ (Json.ofText? made).present = true := by
  cases made with
  | none => exact iff_of_false (fun differs => differs rfl) Bool.false_ne_true
  | some shown =>
    obtain ⟨_, -, -, canonical⟩ := exists_of_ofValue_eq_some canonized
    exact iff_of_true nofun
      ((Json.present_ofText? _).mpr ⟨shown, rfl, canonical_ne_empty canonical⟩)

/-- What there is of a canonical form has a key. -/
theorem isSome_keyOfCanonical (made : Option String) :
    (keyOfCanonical (.ofText? made)).isSome = (Json.ofText? made).present := by
  cases made with
  | none => rfl
  | some shown =>
    by_cases empty : shown = ""
    · rw [empty]
      rfl
    · rw [Json.ofText?, keyOfCanonical, if_neg empty, Json.present_text,
        String.isEmpty_eq_false_iff.mpr empty]
      rfl

/-- What an identifier was made of may be asked for it again, before anything else. -/
theorem identifierOf_orElse_again {other : Json}
    (named : identifierOf (value.orElse other) = .ok made) :
    identifierOf ((Json.ofText? made).orElse other) = .ok made := by
  cases made with
  | none =>
    have absent := (ofValue_some_eq_none identifier _).mp named
    rw [Json.present_orElse, Bool.or_eq_false_iff] at absent
    exact ofValue_absent _ other absent.2
  | some shown =>
    obtain ⟨text, -, given, same⟩ := exists_of_ofValue_eq_some named
    have present : (Json.ofText? (some shown)).present = true := by
      refine (Json.present_ofText? _).mpr ⟨shown, rfl, ?_⟩
      rw [← Option.some.inj same]
      exact identifier_ne_empty given
    rw [Json.orElse_of_present present]
    exact identifierOf_again named

end Union

theorem Member.Canonizes.again {raw shown : Member} (canonizes : raw.Canonizes shown) :
    shown.Canonizes shown := by
  obtain ⟨name, named, sameName⟩ := canonizes.name
  obtain ⟨param, parametric, sameParam⟩ := canonizes.param
  obtain ⟨type, typed, sameType⟩ := canonizes.type
  have chosen : Union.identifierOf (raw.param.orElse (.ofText? name)) = .ok param := by
    by_cases given : raw.param.present = true
    · rw [if_pos given] at parametric
      rwa [Json.orElse_of_present given]
    · rw [if_neg given, named] at parametric
      rw [Json.orElse_of_absent (eq_false_of_ne_true given), Union.identifierOf_again named,
        parametric]
  have again := Union.identifierOf_orElse_again chosen
  refine ⟨⟨name, ?_, sameName⟩, ⟨param, ?_, sameParam⟩, ⟨type, ?_, sameType⟩, rfl⟩
  · rw [sameName]
    exact Union.identifierOf_again named
  · rw [← apply_ite Union.identifierOf, sameName, sameParam]
    exact again
  · rw [sameType]
    exact Union.canonicalOf_again typed

namespace Definition

section Rules

variable {rule : Json → Except Fault (Option String)} {value made : Json}

/-- What a rule keeps once made it keeps where it applies to present values only. -/
theorem ruled_again
    (again : ∀ shown, rule value = .ok shown → rule (.ofText? shown) = .ok shown)
    (applied : ruled rule value = .ok made) : ruled rule made = .ok made := by
  rcases ruled_eq_ok applied with ⟨shown, ruled, rfl⟩ | ⟨absent, rfl⟩
  · unfold Definition.ruled
    rw [again shown ruled]
    exact ite_self _
  · exact if_neg (ne_true_of_eq_false absent)

theorem tightKind_again (shown : Option String) (tightened : tightKind value = .ok shown) :
    tightKind (.ofText? shown) = .ok shown := by
  cases value with
  | text written =>
    cases tightened
    change Except.ok (some (removeBlanks (removeBlanks written))) = _
    rw [Text.removeBlanks_removeBlanks]
  | null | bool | number | list | record => cases tightened

theorem ruled_canonicalOf_again (applied : ruled Union.canonicalOf value = .ok made) :
    ruled Union.canonicalOf made = .ok made :=
  ruled_again (fun _ => Union.canonicalOf_again) applied

theorem present_ruled_iff (applied : ruled Union.canonicalOf value = .ok made) :
    made.present = true ↔ value.Shows := by
  rcases ruled_eq_ok applied with ⟨shown, canonized, rfl⟩ | ⟨absent, rfl⟩
  · exact Union.present_canonicalOf_iff canonized
  · rw [absent]
    refine iff_of_false Bool.false_ne_true ?_
    intro shows
    rw [shows.present] at absent
    cases absent

end Rules

/-- Whether another pass would leave the type of a definition in canonical form as it is: there is
one, or nothing that it could be taken from. -/
def Settled (definition : Definition) : Prop :=
  definition.type ≠ .null ∨ definition.types.present = false ∧ definition.baseType.present = false

/-- Whether white space as the type, or as the union where there is no type, stands before
something that the type could be taken from. -/
def Obscured (definition : Definition) : Prop :=
  definition.type.Blank ∧ (definition.types.Shows ∨ definition.baseType.Shows) ∨
    definition.type.present = false ∧ definition.types.Blank ∧ definition.baseType.Shows

namespace Canonizes

variable {raw once twice : Definition}

/-- A definition has a canonical form only if what has to be text in it is text. -/
theorem textFaults_eq_nil (canonizes : raw.Canonizes once) : raw.textFaults = [] :=
  raw.canonical_reports.exists_ok_iff.mp ⟨once, canonical_eq_ok_iff.mpr canonizes⟩

theorem textFaults_again (canonizes : raw.Canonizes once) : once.textFaults = [] := by
  obtain ⟨type, -, typed, name, -, named⟩ := canonizes.type
  rw [textFaults_eq_nil_iff]
  simp only [← Json.textFaults_eq_nil_iff]
  refine ⟨textFaults_of_ruled_eq_ok canonizes.kind, ?_, textFaults_of_ruled_eq_ok canonizes.types,
    textFaults_of_ruled_eq_ok canonizes.baseType, ?_, ?_⟩
  · rw [typed]
    exact Json.textFaults_ofText? type
  · rw [named]
    exact Json.textFaults_ofText? name
  · intro member found
    obtain ⟨before, made⟩ := canonizes.exists_member found
    exact member.canonical_reports.exists_ok_iff.mp
      ⟨member, Member.canonical_eq_ok_iff.mpr made.again⟩

/-- A pass settles a definition where something is seen of its type, or nothing is seen of what a
type could be taken from. -/
theorem settled_iff (canonizes : raw.Canonizes once) :
    once.Settled ↔ (raw.type.orElse (raw.types.orElse raw.baseType)).Shows ∨
      ¬raw.types.Shows ∧ ¬raw.baseType.Shows := by
  obtain ⟨type, typed, same, -⟩ := canonizes.type
  rw [Settled, same, Union.ofText?_ne_null_iff typed, Union.present_canonicalOf_iff typed,
    ← present_ruled_iff canonizes.types, ← present_ruled_iff canonizes.baseType,
    Bool.not_eq_true, Bool.not_eq_true]

/-- A pass settles the type unless white space stands before it. -/
theorem settled_iff_not_obscured (canonizes : raw.Canonizes once) :
    once.Settled ↔ ¬raw.Obscured := by
  obtain ⟨-, type, types, -⟩ := textFaults_eq_nil_iff.mp canonizes.textFaults_eq_nil
  -- A type that shows something is present, and so is a union: no third case stands between them.
  have typeShown := @Json.Shows.present raw.type
  have typesShown := @Json.Shows.present raw.types
  rw [canonizes.settled_iff, Obscured, Json.blank_iff type, Json.blank_iff types,
    Json.shows_orElse, Json.shows_orElse, ← Bool.not_eq_true, ← Bool.not_eq_true]
  tauto

theorem not_obscured (canonizes : raw.Canonizes once) : ¬once.Obscured := by
  obtain ⟨type, typed, same, -⟩ := canonizes.type
  have typeSeen : ¬once.type.Blank := by
    intro blank
    apply blank.not_shows
    rw [same, ← Union.present_canonicalOf_iff (Union.canonicalOf_again typed), ← same]
    exact blank.present
  have typesSeen : ¬once.types.Blank := by
    intro blank
    apply blank.not_shows
    rw [← present_ruled_iff (ruled_canonicalOf_again canonizes.types)]
    exact blank.present
  rintro (⟨blank, -⟩ | ⟨-, blank, -⟩)
  · exact typeSeen blank
  · exact typesSeen blank

theorem settled_again (first : raw.Canonizes once) (second : once.Canonizes twice) :
    twice.Settled := second.settled_iff_not_obscured.mpr first.not_obscured

/-- A canonical form with a settled type is its own canonical form. -/
theorem again (canonizes : raw.Canonizes once) (settled : once.Settled) :
    once.Canonizes once := by
  obtain ⟨type, typed, sameType, name, named, sameName⟩ := canonizes.type
  refine ⟨ruled_again tightKind_again canonizes.kind, ⟨type, ?_, sameType, name, ?_, sameName⟩,
    ruled_canonicalOf_again canonizes.types, ruled_canonicalOf_again canonizes.baseType, ?_⟩
  · by_cases missing : once.type = .null
    · obtain ⟨noUnion, noBase⟩ := settled.resolve_left (not_not.mpr missing)
      have none : type = none := by
        rw [sameType] at missing
        cases type with
        | none => rfl
        | some shown => cases missing
      rw [missing, Json.orElse_of_absent rfl, Json.orElse_of_absent noUnion, none]
      exact Union.ofValue_absent _ _ noBase
    · rw [sameType, ← ne_eq, Union.ofText?_ne_null_iff typed] at missing
      rw [sameType, Json.orElse_of_present missing]
      exact Union.canonicalOf_again typed
  · rw [sameName]
    exact Union.identifierOf_orElse_again named
  · have paired := canonizes.members
    generalize raw.members = before at paired
    generalize once.members = after at paired ⊢
    cases paired with
    | none => exact .none
    | some each =>
      refine .some (List.forall₂_same.mpr fun member found => ?_)
      obtain ⟨_, -, made⟩ := exists_of_mem_right each found
      exact made.again

theorem exists_again (canonizes : raw.Canonizes once) :
    ∃ twice : Definition, once.Canonizes twice := by
  obtain ⟨twice, made⟩ := once.canonical_reports.exists_ok_iff.mpr canonizes.textFaults_again
  exact ⟨twice, canonical_eq_ok_iff.mp made⟩

end Canonizes

end Definition

namespace Tables

/-- What is found by kind and by base type does not depend on the marks of authored types. -/
theorem addAll_congr {first second : Tables} (kinds : first.kinds = second.kinds)
    (subtypes : first.subtypes = second.subtypes) (position : Nat)
    {marked other : List (Bool × Definition)}
    (same : marked.map Prod.snd = other.map Prod.snd) :
    (first.addAll position marked).kinds = (second.addAll position other).kinds ∧
      (first.addAll position marked).subtypes = (second.addAll position other).subtypes := by
  induction marked generalizing first second position other with
  | nil =>
    rw [List.map_nil, eq_comm, List.map_eq_nil_iff] at same
    subst same
    exact ⟨kinds, subtypes⟩
  | cons item rest ih =>
    obtain ⟨mark, definition⟩ := item
    obtain ⟨⟨_, _⟩, later, rfl, rfl, more⟩ := List.map_eq_cons_iff.mp same.symm
    refine ih ?_ ?_ (position + 1) more.symm
    · rw [kinds_add, kinds_add, kinds]
    · rw [subtypes_add, subtypes_add, subtypes]

end Tables

def Catalog.entries (catalog : Catalog) : List Entry :=
  catalog.definitions.zipIdx.map fun item => ⟨item.2, item.1⟩

namespace Catalog

variable {raws : List Definition} {catalog again : Catalog}

theorem tables_congr {others : List Definition} (first : ofDefinitions raws = .ok catalog)
    (second : ofDefinitions others = .ok again)
    (same : again.definitions = catalog.definitions) :
    again.tables.kinds = catalog.tables.kinds ∧
      again.tables.subtypes = catalog.tables.subtypes := by
  obtain ⟨paired, tables⟩ := ofDefinitions_eq_ok first
  obtain ⟨pairedAgain, tablesAgain⟩ := ofDefinitions_eq_ok second
  rw [tables, tablesAgain]
  apply Tables.addAll_congr rfl rfl
  rw [List.map_snd_zip, List.map_snd_zip, same]
  · rw [List.length_map, paired.length_eq]
  · rw [List.length_map, pairedAgain.length_eq]

theorem map_entry_listed (same : again.definitions = catalog.definitions) :
    (again.listed catalog.definitions).map Listed.entry = catalog.entries := by
  have doubled := @List.zip_map' _ _ _ id id catalog.definitions
  rw [List.map_id] at doubled
  rw [listed, Listed.pairs, same, doubled, List.zipIdx_map, List.map_map, List.map_map, entries]
  rfl

/-- A definition that stays as it is counts as one with an authored type if it has a type. -/
theorem authored_again {listed : Listed} (indexed : ofDefinitions catalog.definitions = .ok again)
    (fixed : ∀ definition ∈ catalog.definitions, definition.Canonizes definition)
    (found : listed ∈ again.listed catalog.definitions) :
    listed.written.type.present =
      (Union.keyOfCanonical listed.entry.definition.type).isSome := by
  have written : listed.written ∈ catalog.definitions := by
    rw [← (listed_spec (ofDefinitions_eq_ok indexed).1.length_eq).1]
    exact List.mem_map_of_mem found
  have canonizes := fixed _ written
  have same : listed.entry.definition = listed.written := by
    have made := canonical_of_mem_listed indexed found
    rw [Definition.canonical_eq_ok_iff.mpr canonizes] at made
    exact (Except.ok.inj made).symm
  obtain ⟨type, -, typed, -⟩ := canonizes.type
  rw [same, typed, Union.isSome_keyOfCanonical]

/-- Where all definitions stay as they are, each type that there is leads to the last definition
that has it. -/
theorem get?_types_again (indexed : ofDefinitions catalog.definitions = .ok again)
    (fixed : ∀ definition ∈ catalog.definitions, definition.Canonizes definition)
    (same : again.definitions = catalog.definitions) (typeKey : Option String) :
    Assoc.get? again.tables.types typeKey =
      (catalog.entries.filter fun entry =>
        (Union.keyOfCanonical entry.definition.type).isSome &&
          Union.keyOfCanonical entry.definition.type == typeKey).getLast? := by
  rw [(ofDefinitions_eq_ok indexed).2, Tables.get?_types_addAll, Assoc.get?_nil, Option.or_none,
    ← map_entry_listed same, List.filter_map, List.getLast?_map]
  congr 2
  apply List.filter_congr
  intro listed found
  rw [authored_again indexed fixed found]
  rfl

/-- Definitions that do not change any more are indexed once more: what they are found by stays,
but for the types, which all count as authored then. -/
theorem ofDefinitions_again (indexed : ofDefinitions raws = .ok catalog)
    (settled : ∀ definition ∈ catalog.definitions, definition.Settled) :
    ∃ again, ofDefinitions catalog.definitions = .ok again ∧
      again.definitions = catalog.definitions ∧
      again.tables.kinds = catalog.tables.kinds ∧
      again.tables.subtypes = catalog.tables.subtypes ∧
      (∀ key, Assoc.get? again.tables.types (some key) =
        (catalog.entries.filter fun entry =>
          Union.keyOfCanonical entry.definition.type == some key).getLast?) ∧
      Assoc.get? again.tables.types none = none := by
  obtain ⟨paired, tables⟩ := ofDefinitions_eq_ok indexed
  have fixed : ∀ definition ∈ catalog.definitions, definition.Canonizes definition := by
    intro definition found
    obtain ⟨raw, -, canonizes⟩ := exists_of_mem_right paired found
    exact canonizes.again (settled definition found)
  have unchanged : catalog.definitions.mapM Definition.canonical = .ok catalog.definitions := by
    apply mapM_eq_ok_of_forall₂
    rw [List.forall₂_same]
    intro definition found
    exact Definition.canonical_eq_ok_iff.mpr (fixed definition found)
  have made : ofDefinitions catalog.definitions = .ok
      ⟨catalog.definitions, Tables.addAll {} 0
        ((catalog.definitions.map fun definition => definition.type.present).zip
          catalog.definitions)⟩ := by
    rw [ofDefinitions, unchanged]
    rfl
  obtain ⟨kinds, subtypes⟩ := tables_congr indexed made rfl
  refine ⟨_, made, rfl, kinds, subtypes, ?_, ?_⟩
  · intro key
    rw [get?_types_again made fixed rfl]
    congr 2
    funext entry
    cases Union.keyOfCanonical entry.definition.type <;> rfl
  · rw [get?_types_again made fixed rfl]
    have none : (fun entry : Entry => (Union.keyOfCanonical entry.definition.type).isSome &&
        Union.keyOfCanonical entry.definition.type == none) = fun _ => false := by
      funext entry
      cases Union.keyOfCanonical entry.definition.type <;> rfl
    rw [none, List.filter_false]
    rfl

/-- Canonical forms of canonical forms. The first pass may leave a type to be taken from the union
or the base type, exactly where white space stood before these; the second pass leaves nothing to
do. Where the first one has left nothing, a catalog made of the definitions of a catalog is the same
but for its types: each that there is leads to the last definition that has it. -/
theorem canonical_forms_stabilize :
    (∀ raw once : Definition, raw.canonical = .ok once →
      ∃ twice : Definition, once.canonical = .ok twice ∧ twice.canonical = .ok twice ∧
        (twice = once ↔ once.Settled) ∧ (once.Settled ↔ ¬raw.Obscured)) ∧
    ∀ raws catalog, ofDefinitions raws = .ok catalog →
      (∀ definition ∈ catalog.definitions, definition.Settled) →
      ∃ again, ofDefinitions catalog.definitions = .ok again ∧
        again.definitions = catalog.definitions ∧
        again.tables.kinds = catalog.tables.kinds ∧
        again.tables.subtypes = catalog.tables.subtypes ∧
        (∀ key, Assoc.get? again.tables.types (some key) =
          (catalog.entries.filter fun entry =>
            Union.keyOfCanonical entry.definition.type == some key).getLast?) ∧
        Assoc.get? again.tables.types none = none := by
  refine ⟨fun raw once made => ?_, fun raws catalog => ofDefinitions_again⟩
  have first := Definition.canonical_eq_ok_iff.mp made
  obtain ⟨twice, second⟩ := first.exists_again
  have onceMore := Definition.canonical_eq_ok_iff.mpr second
  have settled := first.settled_again second
  refine ⟨twice, onceMore, Definition.canonical_eq_ok_iff.mpr (second.again settled), ?_,
    first.settled_iff_not_obscured⟩
  constructor
  · rintro rfl
    exact settled
  · intro done
    have fixed := Definition.canonical_eq_ok_iff.mpr (first.again done)
    rw [onceMore] at fixed
    exact Except.ok.inj fixed

/-- A definition whose type is white space, while it is a union. -/
def sampleObscured : Definition := { type := .text " ", types := .text "B|A" }

def sampleObscuredOnce : Definition := { types := .text "A | B" }

theorem sample_canonical_forms_stabilize :
    (¬sampleObscuredOnce.Settled ∧ ∃ twice : Definition,
      sampleObscuredOnce.canonical = .ok twice ∧ twice.canonical = .ok twice ∧
        twice ≠ sampleObscuredOnce) ∧
    ∃ again, ofDefinitions sampleListingCatalog.definitions = .ok again ∧
      again.tables.kinds = sampleListingCatalog.tables.kinds ∧
      (Assoc.get? sampleListingCatalog.tables.types (some "A|B")).map Entry.position = some 1 ∧
      (Assoc.get? again.tables.types (some "A|B")).map Entry.position = some 3 ∧
      Assoc.get? again.tables.types none = none := by
  obtain ⟨passes, indexing⟩ := canonical_forms_stabilize
  constructor
  · obtain ⟨twice, second, third, same, settled⟩ :=
      passes sampleObscured sampleObscuredOnce (by cbv)
    have obscured : sampleObscured.Obscured := by
      have blank : ¬Visible " " := (Text.removeBlanks_eq_empty_iff " ").mp rfl
      exact .inl ⟨⟨" ", rfl, by decide, blank⟩, .inl ⟨"B|A", rfl, 'B', by decide, rfl⟩⟩
    have unsettled : ¬sampleObscuredOnce.Settled := by
      rw [settled]
      exact not_not.mpr obscured
    exact ⟨unsettled, twice, second, third, fun fixed => unsettled (same.mp fixed)⟩
  · have settled : ∀ definition ∈ sampleListingCatalog.definitions, definition.Settled := by
      have typed (text : String) : Json.text text ≠ .null := by
        intro impossible
        cases impossible
      simp only [sampleListingCatalog, List.forall_mem_cons]
      exact ⟨.inl (typed _), .inl (typed _), .inr ⟨rfl, rfl⟩, .inl (typed _), List.forall_mem_nil _⟩
    obtain ⟨again, made, -, kinds, -, types, none⟩ :=
      indexing sampleListing sampleListingCatalog ofDefinitions_sampleListing settled
    refine ⟨again, made, kinds, by cbv, ?_, none⟩
    rw [types]
    cbv

end Catalog

end NodeSmith
