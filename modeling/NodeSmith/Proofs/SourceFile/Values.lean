import Mathlib
import NodeSmith.Generator
import NodeSmith.Proofs.Catalog.Canonical
import NodeSmith.Proofs.Text.Lines

set_option autoImplicit false

namespace NodeSmith

open Text

/-- The names that a file shows for a member have no character of a sort. -/
@[mk_iff]
structure Member.NamesFree (sort : Char → Bool) (member : Member) : Prop where
  name : Free sort member.name.display
  param : Free sort member.param.display
  converter : Free sort member.converter.display

@[mk_iff]
structure Definition.NamesFree (sort : Char → Bool) (definition : Definition) : Prop where
  name : Free sort definition.name.display
  members : ∀ member ∈ definition.memberList, member.NamesFree sort

/-- The kind and the types that a file shows have no character of a sort. -/
@[mk_iff]
structure Definition.TypesFree (sort : Char → Bool) (definition : Definition) : Prop where
  kind : Free sort definition.kind.display
  type : Free sort definition.type.display
  members : ∀ member ∈ definition.memberList, Free sort member.type.display

/-- What a file shows for a definition has no character of a sort. -/
@[mk_iff]
structure Definition.ShownFree (sort : Char → Bool) (definition : Definition) : Prop where
  names : definition.NamesFree sort
  types : definition.TypesFree sort

/-- The settings that a file shows have no character of a sort. -/
@[mk_iff]
structure Settings.NamesFree (sort : Char → Bool) (settings : Settings) (references : List Json) :
    Prop where
  moduleName : Free sort settings.moduleName.display
  factoryModule : Free sort settings.factoryModule.display
  visitorModule : Free sort settings.visitorModule.display
  comment : Free sort settings.comment.display
  references : ∀ reference ∈ references, Free sort reference.display

instance (sort : Char → Bool) (member : Member) : Decidable (member.NamesFree sort) :=
  decidable_of_iff' _ (Member.namesFree_iff sort member)

instance (sort : Char → Bool) (definition : Definition) : Decidable (definition.NamesFree sort) :=
  decidable_of_iff' _ (Definition.namesFree_iff sort definition)

instance (sort : Char → Bool) (definition : Definition) : Decidable (definition.TypesFree sort) :=
  decidable_of_iff' _ (Definition.typesFree_iff sort definition)

instance (sort : Char → Bool) (definition : Definition) : Decidable (definition.ShownFree sort) :=
  decidable_of_iff' _ (Definition.shownFree_iff sort definition)

instance (sort : Char → Bool) (settings : Settings) (references : List Json) :
    Decidable (settings.NamesFree sort references) :=
  decidable_of_iff' _ (Settings.namesFree_iff sort settings references)

theorem Definition.Canonizes.typesFree {raw shown : Definition} (canonizes : raw.Canonizes shown)
    (creatable : shown.creatable = true) : shown.TypesFree isBreak := by
  refine ⟨canonizes.kind_unbroken creatable, canonizes.type_unbroken, ?_⟩
  intro member found
  obtain ⟨before, canonizes⟩ := canonizes.exists_member found
  exact canonizes.type_unbroken

/-- Braces and breaks. Fixed texts within a line have none of them, but for the braces at which
blocks begin and end. -/
def isMark (c : Char) : Bool := c == '{' || c == '}' || isBreak c

section Texts

variable {sort : Char → Bool} (marks : ∀ c, sort c = true → isMark c = true)
include marks

theorem free_fixed {text : String} (plain : Free isMark text) : Free sort text := plain.mono marks

theorem free_present {value : Json} (free : Free sort value.display) :
    Free sort value.displayPresent := by
  cases value with
  | null => exact free_fixed marks (by decide)
  | bool | number | text | list | record => exact free

theorem Member.free_declaredType {member : Member} (type : Free sort member.type.display) :
    Free sort (Factory.declaredType member) := by
  unfold Factory.declaredType
  rw [free_append]
  refine ⟨type, ?_⟩
  split <;> exact free_fixed marks (by decide)

theorem Member.free_initializer {member : Member} (names : member.NamesFree sort) :
    Free sort (Factory.initializer member) := by
  unfold Factory.initializer
  dsimp only
  split
  · simp +decide only [free_append, free_fixed marks, names.converter, names.param, and_self]
  · split
    · simp +decide only [free_append, free_fixed marks, names.param, and_self]
    · split
      · simp +decide only [free_append, free_fixed marks, names.param, and_self]
      · exact names.param

namespace Definition

variable {definition : Definition} (names : definition.NamesFree sort)
  (types : definition.TypesFree sort)
include names

theorem free_finishArguments :
    Free sort (", ".intercalate (Factory.finishArguments definition)) := by
  have modifiers : Free sort (Factory.modifiersParam definition).display := by
    unfold Factory.modifiersParam
    split
    · rename_i member last
      have found := List.mem_of_getLast? last
      exact (names.members member (List.mem_of_mem_filter found)).param
    · exact free_fixed marks (by decide)
  apply free_intercalate (free_fixed marks (by decide))
  intro text found
  rcases List.mem_append.mp found with fixed | last
  · have each : ∀ text ∈ ["node", "location", "flags"], Free isMark text := by decide
    exact free_fixed marks (each text fixed)
  · split at last
    · rw [List.mem_singleton.mp last]
      exact modifiers
    · exact absurd last List.not_mem_nil

theorem free_changeTests :
    Free sort (" || ".intercalate (definition.mutableMembers.map Factory.changeTest)) := by
  apply free_intercalate (free_fixed marks (by decide))
  intro text found
  obtain ⟨member, listed, rfl⟩ := List.mem_map.mp found
  have memberNames := names.members member (List.mem_of_mem_filter listed)
  simp +decide only [Factory.changeTest, free_append, free_fixed marks, memberNames.name,
    memberNames.param, and_self]

theorem free_carriedArguments :
    Free sort (", ".intercalate (Factory.carriedArguments definition)) := by
  apply free_intercalate (free_fixed marks (by decide))
  intro text found
  rcases List.mem_append.mp found with own | fixed
  · obtain ⟨member, listed, rfl⟩ := List.mem_map.mp own
    have memberNames := names.members member listed
    unfold Factory.carriedArgument
    split
    · simp +decide only [free_append, free_fixed marks, memberNames.name, and_self]
    · exact memberNames.param
  · have each : ∀ text ∈ ["node", "node.flags"], Free isMark text := by decide
    exact free_fixed marks (each text fixed)

include types

theorem free_createParameters :
    Free sort (", ".intercalate (Factory.createParameters definition)) := by
  apply free_intercalate (free_fixed marks (by decide))
  intro text found
  rcases List.mem_append.mp found with own | fixed
  · obtain ⟨member, listed, rfl⟩ := List.mem_map.mp own
    have param := free_present marks (names.members member listed).param
    have type := Member.free_declaredType marks (types.members member listed)
    have sign : Free sort (if member.optional then "?" else "") := by
      split <;> exact free_fixed marks (by decide)
    simp +decide only [Factory.createParameter, free_append, free_fixed marks, param, type, sign,
      and_self]
  · have each : ∀ text ∈ ["location?: TextRange", "flags?: NodeFlags"], Free isMark text := by
      decide
    exact free_fixed marks (each text fixed)

theorem free_updateParameters :
    Free sort (", ".intercalate (Factory.updateParameters definition)) := by
  apply free_intercalate (free_fixed marks (by decide))
  intro text found
  rcases List.mem_cons.mp found with rfl | own
  · simp +decide only [free_append, free_fixed marks, types.type, and_self]
  · obtain ⟨member, listed, rfl⟩ := List.mem_map.mp own
    have among := List.mem_of_mem_filter listed
    have param := (names.members member among).param
    have type := Member.free_declaredType marks (types.members member among)
    simp +decide only [Factory.updateParameter, free_append, free_fixed marks, param, type,
      and_self]

theorem free_rebuildArguments (tables : Tables) :
    ∀ text ∈ Visitor.rebuildArguments tables definition, Free sort text := by
  intro text found
  rcases List.mem_cons.mp found with rfl | own
  · simp +decide only [free_append, free_fixed marks, types.type, and_self]
  · obtain ⟨member, listed, rfl⟩ := List.mem_map.mp own
    have among := List.mem_of_mem_filter listed
    have name := (names.members member among).name
    have type := types.members member among
    unfold Visitor.visitedArgument
    dsimp only
    split
    · split <;> simp +decide only [free_append, free_fixed marks, name, type, types.type,
        and_self]
    · simp +decide only [free_append, free_fixed marks, name, types.type, and_self]

/-- The line that opens a create function, up to its brace. -/
theorem free_createHeader :
    Free sort ("export function create" ++ definition.name.display ++ "(" ++
      ", ".intercalate (Factory.createParameters definition) ++ "): " ++
      definition.type.display) := by
  have parameters := free_createParameters marks names types
  simp +decide only [free_append, free_fixed marks, names.name, parameters, types.type, and_self]

theorem free_updateHeader :
    Free sort ("export function update" ++ definition.name.display ++ "(" ++
      ", ".intercalate (Factory.updateParameters definition) ++ "): " ++
      definition.type.display) := by
  have parameters := free_updateParameters marks names types
  simp +decide only [free_append, free_fixed marks, names.name, parameters, types.type, and_self]

omit types in
/-- The lines that store the members of a new node. -/
theorem free_stores : ∀ member ∈ definition.memberList,
    Free sort ("node." ++ member.name.display ++ " = " ++ Factory.initializer member ++ ";") := by
  intro member listed
  have own := names.members member listed
  have initial := Member.free_initializer marks own
  simp +decide only [free_append, free_fixed marks, own.name, initial, and_self]

omit types in
theorem free_finish :
    Free sort ("return finishNode(" ++ ", ".intercalate (Factory.finishArguments definition) ++
      ");") := by
  have arguments := free_finishArguments marks names
  simp +decide only [free_append, free_fixed marks, arguments, and_self]

omit types in
theorem free_changes :
    Free sort ("if (" ++
      " || ".intercalate (definition.mutableMembers.map Factory.changeTest)) := by
  have tests := free_changeTests marks names
  simp +decide only [free_append, free_fixed marks, tests, and_self]

omit types in
theorem free_recreation :
    Free sort ("return create" ++ definition.name.display ++ "(" ++
      ", ".intercalate (Factory.carriedArguments definition) ++ ");") := by
  have arguments := free_carriedArguments marks names
  simp +decide only [free_append, free_fixed marks, names.name, arguments, and_self]

omit types in
theorem free_rebuildHeader {module : Json} (shown : Free sort module.display) :
    Free sort ("return " ++ module.display ++ ".update" ++ definition.name.display ++ "(") := by
  simp +decide only [free_append, free_fixed marks, shown, names.name, and_self]

omit names

theorem free_beginning :
    Free sort ("var node = beginNode<" ++ definition.type.display ++ ">(SyntaxKind." ++
      definition.kind.display ++ ");") := by
  simp +decide only [free_append, free_fixed marks, types.type, types.kind, and_self]

theorem free_label : Free sort ("case SyntaxKind." ++ definition.kind.display ++ ":") := by
  simp +decide only [free_append, free_fixed marks, types.kind, and_self]

end Definition

theorem SourceFile.free_preambleLines {settings : Settings} {references : List Json}
    (names : settings.NamesFree sort references) :
    ∀ content ∈ preambleLines settings references, Free sort content := by
  intro content found
  rcases List.mem_append.mp found with fixed | referred
  · rcases List.mem_cons.mp fixed with rfl | remark
    · exact free_fixed marks (by decide)
    · split at remark
      · rw [List.mem_singleton.mp remark]
        simp +decide only [free_append, free_fixed marks, names.comment, and_self]
      · exact absurd remark List.not_mem_nil
  · obtain ⟨reference, listed, rfl⟩ := List.mem_map.mp referred
    simp +decide only [free_append, free_fixed marks, names.references reference listed, and_self]

end Texts

theorem Generator.generate_of_indexed {generator : Generator} {catalog : Catalog}
    (indexed : Catalog.ofSchema generator.schema = .ok catalog) :
    generator.generate.1 = SourceFile.text generator.settings catalog := by
  simp only [generate, indexed]

def sampleSchema : Json := .list [
  .record [("kind", .text "Identifier"),
    ("children", .list [.record [("name", .text "text"), ("type", .text "string")]])],
  .record [("kind", .text "EndOfFile")]]

def sampleIdentifier : Definition where
  kind := .text "Identifier"
  name := .text "Identifier"
  members := some [{ name := .text "text", param := .text "text", type := .text "string" }]

def sampleDefinitions : List Definition :=
  [sampleIdentifier, { kind := .text "EndOfFile", name := .text "EndOfFile" }]

def sampleCatalog : Catalog where
  definitions := sampleDefinitions
  tables := Tables.addAll {} 0 (sampleDefinitions.map (false, ·))

theorem ofSchema_sampleSchema : Catalog.ofSchema sampleSchema = .ok sampleCatalog := by
  cbv

end NodeSmith
