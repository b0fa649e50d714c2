import NodeSmith.Proofs.SourceFile.Lines

set_option autoImplicit false

namespace NodeSmith

open Layout (Line)
open Text

/-- The text begins with a visible character. -/
def Text.Leads (text : String) : Prop := text.toList.head?.any (fun c => !isBlank c) = true

instance (text : String) : Decidable (Leads text) := inferInstanceAs (Decidable (_ = true))

theorem Text.leads_append {front back : String} :
    Leads (front ++ back) ↔ Leads front ∨ front = "" ∧ Leads back := by
  unfold Leads
  rw [String.toList_append, ← String.toList_eq_nil_iff]
  cases front.toList with
  | nil => simp
  | cons c rest => simp

/-- The line is empty, or begins with a visible character and has no break. -/
def Layout.Line.Flush : Line → Prop
  | .blank => True
  | .filled _ content => Leads content ∧ Unbroken content

theorem Layout.Line.flush_filled {depth : Nat} {content : String} :
    (Line.filled depth content).Flush ↔ Leads content ∧ Unbroken content := Iff.rfl

theorem Layout.Line.render_unitless (depth : Nat) (content : String) :
    (Line.filled depth content).render "" = content := by
  have none : Layout.multiple "" depth = "" := by
    induction depth with
    | zero => rfl
    | succ depth ih => rw [Layout.multiple_succ, ih, String.append_empty]
  rw [render, none, String.empty_append]

/-- Without a unit there is nothing that such lines could be indented by. -/
theorem Layout.lead_of_mem_render {lines : List Line} (flush : ∀ line ∈ lines, line.Flush) :
    ∀ text ∈ Text.lines (render "" "\n" lines), text = "" ∨ Leads text := by
  intro text found
  by_cases none : lines = []
  · rw [none] at found
    exact .inl (List.mem_singleton.mp found)
  · have unbroken : ∀ shown ∈ lines.map (Line.render ""), Unbroken shown := by
      rw [List.forall_mem_map]
      intro line listed
      cases line with
      | blank => exact free_empty
      | filled depth content =>
        rw [Line.render_unitless]
        exact (flush _ listed).2
    rw [render, lines_intercalate unbroken (by rwa [ne_eq, List.map_eq_nil_iff])] at found
    obtain ⟨line, listed, rfl⟩ := List.mem_map.mp found
    cases line with
    | blank => exact .inl rfl
    | filled depth content =>
      rw [Line.render_unitless]
      exact .inr (flush _ listed).1

/-- Blocks of such lines with empty lines between them. -/
theorem Layout.flush_intercalate {blocks : List (List Line)}
    (each : ∀ block ∈ blocks, ∀ line ∈ block, line.Flush) :
    ∀ line ∈ [Line.blank].intercalate blocks, line.Flush := by
  induction blocks with
  | nil => exact List.forall_mem_nil _
  | cons block rest ih =>
    obtain ⟨here, later⟩ := List.forall_mem_cons.mp each
    cases rest with
    | nil =>
      rw [List.intercalate_singleton]
      exact here
    | cons next rest =>
      rw [List.intercalate_cons_cons, List.forall_mem_append, List.forall_mem_append]
      exact ⟨⟨here, List.forall_mem_singleton.mpr trivial⟩, ih later⟩

namespace Factory

variable {definition : Definition} {depth : Nat}

theorem createLines_flush (shown : definition.ShownFree isBreak) :
    ∀ line ∈ createLines depth definition, line.Flush := by
  obtain ⟨names, types⟩ := shown
  have header := unbroken_opening (Definition.free_createHeader isMark_of_isBreak names types)
  have beginning := Definition.free_beginning isMark_of_isBreak types
  have stores := Definition.free_stores isMark_of_isBreak names
  have finish := Definition.free_finish isMark_of_isBreak names
  simp only [createLines, List.forall_mem_append, List.forall_mem_cons, List.forall_mem_map,
    Layout.Line.flush_filled]
  refine ⟨⟨⟨?_, header⟩, ⟨⟨?_, beginning⟩, fun member listed => ⟨?_, stores member listed⟩⟩,
    ⟨?_, finish⟩, List.forall_mem_nil _⟩, ⟨by decide, by decide⟩, List.forall_mem_nil _⟩
  all_goals simp +decide only [leads_append, true_or]

theorem updateLines_flush (shown : definition.ShownFree isBreak) :
    ∀ line ∈ updateLines depth definition, line.Flush := by
  obtain ⟨names, types⟩ := shown
  have header := unbroken_opening (Definition.free_updateHeader isMark_of_isBreak names types)
  have changes : Unbroken ("if (" ++
      " || ".intercalate (definition.mutableMembers.map changeTest) ++ ") \x7b") :=
    free_append.mpr ⟨Definition.free_changes isMark_of_isBreak names, by decide⟩
  have recreation := Definition.free_recreation isMark_of_isBreak names
  simp only [updateLines, List.forall_mem_cons, Layout.Line.flush_filled]
  refine ⟨⟨?_, header⟩, ⟨?_, changes⟩, ⟨?_, recreation⟩, ⟨by decide, by decide⟩,
    ⟨by decide, by decide⟩, ⟨by decide, by decide⟩, List.forall_mem_nil _⟩
  all_goals simp +decide only [leads_append, true_or]

theorem blocks_flush (shown : definition.creatable = true → definition.ShownFree isBreak) :
    ∀ block ∈ blocks depth definition, ∀ line ∈ block, line.Flush := by
  intro block found
  rcases List.mem_append.mp found with create | update
  · split at create
    · rename_i creatable
      rw [List.mem_singleton.mp create]
      exact createLines_flush (shown creatable)
    · exact absurd create List.not_mem_nil
  · split at update
    · rename_i updatable
      rw [List.mem_singleton.mp update]
      exact updateLines_flush (shown (Definition.creatable_of_updatable updatable))
    · exact absurd update List.not_mem_nil

end Factory

namespace Visitor

variable {depth : Nat}

/-- The body of the entry point. Its lines stand at one depth, and blanks of their own nest
them. -/
def fallbackBody (depth : Nat) : List Line :=
  [.filled depth "    if (!cbNode || !node) \x7b", .filled depth "        return node;",
    .filled depth "    \x7d", .filled depth "    return <TNode>accept(node, cbNode, state);"]

def fallbackHeader (depth : Nat) : Line :=
  .filled depth ("export function fallback<TNode extends Node>(" ++
    "node: TNode, cbNode: Visitor, state?: any): TNode \x7b")

theorem fallbackHeader_flush : (fallbackHeader depth).Flush := ⟨by decide, by decide⟩

theorem argumentLines_flush {arguments : List String}
    (each : ∀ argument ∈ arguments, Leads argument ∧ Unbroken argument) :
    ∀ line ∈ argumentLines depth arguments, line.Flush := by
  have closing : Unbroken ");" := by decide
  have comma : Unbroken "," := by decide
  induction arguments with
  | nil => exact List.forall_mem_nil _
  | cons first rest ih =>
    obtain ⟨⟨leads, unbroken⟩, later⟩ := List.forall_mem_cons.mp each
    cases rest with
    | nil =>
      exact List.forall_mem_singleton.mpr
        ⟨leads_append.mpr (.inl leads), free_append.mpr ⟨unbroken, closing⟩⟩
    | cons second rest =>
      exact List.forall_mem_cons.mpr
        ⟨⟨leads_append.mpr (.inl leads), free_append.mpr ⟨unbroken, comma⟩⟩, ih later⟩

theorem rebuildArguments_lead (tables : Tables) (definition : Definition) :
    ∀ argument ∈ rebuildArguments tables definition, Leads argument := by
  intro argument found
  rcases List.mem_cons.mp found with rfl | own
  · simp +decide only [leads_append, true_or]
  · obtain ⟨member, -, rfl⟩ := List.mem_map.mp own
    unfold visitedArgument
    dsimp only
    split
    · split <;> simp +decide only [leads_append, true_or]
    · simp +decide only [leads_append, true_or]

variable {settings : Settings} (module : Unbroken settings.factoryModule.display)
include module

theorem rebuildLines_flush {definition : Definition} (shown : definition.ShownFree isBreak)
    (tables : Tables) :
    ∀ line ∈ rebuildLines depth settings tables definition, line.Flush := by
  have header := Definition.free_rebuildHeader isMark_of_isBreak shown.names module
  have unbroken :=
    Definition.free_rebuildArguments isMark_of_isBreak shown.names shown.types tables
  have leads := rebuildArguments_lead tables definition
  refine List.forall_mem_cons.mpr ⟨⟨?_, header⟩, argumentLines_flush fun argument found =>
    ⟨leads argument found, unbroken argument found⟩⟩
  simp +decide only [leads_append, true_or]

theorem caseLines_flush {group : DispatchGroup}
    (shown : ∀ definition ∈ group.members, definition.ShownFree isBreak) (tables : Tables) :
    ∀ line ∈ caseLines depth settings tables group, line.Flush := by
  unfold caseLines
  simp only [List.forall_mem_append, List.forall_mem_map]
  constructor
  · intro definition listed
    refine ⟨?_, Definition.free_label isMark_of_isBreak (shown definition listed).types⟩
    simp +decide only [leads_append, true_or]
  · split
    · cases listed : group.members with
      | nil => exact List.forall_mem_nil _
      | cons definition rest =>
        have head : definition ∈ group.members := by
          rw [listed]
          exact List.mem_cons_self
        exact rebuildLines_flush module (shown definition head) tables
    · exact List.forall_mem_singleton.mpr ⟨by decide, by decide⟩

theorem acceptLines_flush {catalog : Catalog} (shown : ∀ definition ∈ catalog.definitions,
      definition.creatable = true → definition.ShownFree isBreak) :
    ∀ line ∈ acceptLines depth settings catalog, line.Flush := by
  simp only [acceptLines, List.forall_mem_append, List.forall_mem_cons, List.mem_flatMap,
    Layout.Line.flush_filled]
  refine ⟨⟨⟨by decide, by decide⟩, ⟨⟨by decide, by decide⟩, ?_⟩, ⟨by decide, by decide⟩,
    List.forall_mem_nil _⟩, ⟨by decide, by decide⟩, List.forall_mem_nil _⟩
  rintro line ⟨group, found, listed⟩
  refine caseLines_flush module ?_ catalog.tables line listed
  intro definition member
  obtain ⟨among, creatable⟩ := DispatchGroup.mem_of_mem_ofDefinitions found member
  exact shown definition among creatable

end Visitor

namespace SourceFile

variable {settings : Settings} {references : List Json}

/-- The lines of a file up to the one that opens the entry point. -/
def upperLines (settings : Settings) (references : List Json) (definitions : List Definition) :
    List Line :=
  headLines settings references ++
    [Line.blank, Line.filled 0 ("module " ++ settings.moduleName.display ++ " \x7b"),
      Line.filled 1 ("export module " ++ settings.factoryModule.display ++ " \x7b")] ++
    [Line.blank].intercalate (definitions.flatMap (Factory.blocks 2)) ++
    [Line.filled 1 "\x7d", Line.blank,
      Line.filled 1 ("export module " ++ settings.visitorModule.display ++ " \x7b"),
      Visitor.fallbackHeader 2]

/-- The lines of a file from the one that closes the entry point on. -/
def lowerLines (settings : Settings) (catalog : Catalog) : List Line :=
  [Line.filled 2 "\x7d", Line.blank] ++ Visitor.acceptLines 2 settings catalog ++
    [Line.filled 1 "\x7d", Line.filled 0 "\x7d"]

theorem lines_eq (settings : Settings) (references : List Json) (catalog : Catalog) :
    lines settings references catalog =
      upperLines settings references catalog.definitions ++ Visitor.fallbackBody 2 ++
        lowerLines settings catalog := by
  simp only [lines, bodyLines, Visitor.fallbackLines, upperLines, lowerLines,
    Visitor.fallbackHeader, Visitor.fallbackBody, List.append_assoc, List.cons_append,
    List.nil_append]

variable (names : settings.NamesFree isBreak references)
include names

theorem headLines_flush : ∀ line ∈ headLines settings references, line.Flush := by
  have unbroken := free_preambleLines isMark_of_isBreak names
  simp only [headLines_eq, List.forall_mem_map, Layout.Line.flush_filled]
  intro content found
  refine ⟨?_, unbroken content found⟩
  rcases List.mem_append.mp found with fixed | referred
  · rcases List.mem_cons.mp fixed with rfl | remark
    · decide
    · split at remark
      · rw [List.mem_singleton.mp remark]
        simp +decide only [leads_append, true_or]
      · exact absurd remark List.not_mem_nil
  · obtain ⟨reference, -, rfl⟩ := List.mem_map.mp referred
    simp +decide only [leads_append, true_or]

theorem moduleLines_flush :
    ((Line.filled 0 ("module " ++ settings.moduleName.display ++ " \x7b")).Flush ∧
      (Line.filled 1 ("export module " ++ settings.factoryModule.display ++ " \x7b")).Flush) ∧
      (Line.filled 1 ("export module " ++ settings.visitorModule.display ++ " \x7b")).Flush := by
  simp +decide only [Layout.Line.flush_filled, leads_append, free_append, names.moduleName,
    names.factoryModule, names.visitorModule, true_or, and_self]

theorem upperLines_flush {definitions : List Definition} (shown : ∀ definition ∈ definitions,
      definition.creatable = true → definition.ShownFree isBreak) :
    ∀ line ∈ upperLines settings references definitions, line.Flush := by
  obtain ⟨⟨outer, factory⟩, visitor⟩ := moduleLines_flush names
  have blocks : ∀ block ∈ definitions.flatMap (Factory.blocks 2), ∀ line ∈ block, line.Flush := by
    intro block found
    obtain ⟨definition, listed, made⟩ := List.mem_flatMap.mp found
    exact Factory.blocks_flush (shown definition listed) block made
  simp only [upperLines, List.forall_mem_append, List.forall_mem_cons]
  exact ⟨⟨⟨headLines_flush names, trivial, outer, factory, List.forall_mem_nil _⟩,
    Layout.flush_intercalate blocks⟩, ⟨by decide, by decide⟩, trivial, visitor,
    Visitor.fallbackHeader_flush, List.forall_mem_nil _⟩

theorem lowerLines_flush {catalog : Catalog} (shown : ∀ definition ∈ catalog.definitions,
      definition.creatable = true → definition.ShownFree isBreak) :
    ∀ line ∈ lowerLines settings catalog, line.Flush := by
  simp only [lowerLines, List.forall_mem_append, List.forall_mem_cons]
  exact ⟨⟨⟨⟨by decide, by decide⟩, trivial, List.forall_mem_nil _⟩,
    Visitor.acceptLines_flush names.factoryModule shown⟩, ⟨by decide, by decide⟩,
    ⟨by decide, by decide⟩, List.forall_mem_nil _⟩

end SourceFile

def Generator.indentedBy (generator : Generator) (unit : String) : Generator :=
  { generator with settings := { generator.settings with indentUnit := .text unit } }

/-- The lines of a generated file are the same for every unit, and lay the file out in any. -/
theorem Generator.generate_indentedBy {generator : Generator} {catalog : Catalog}
    {references : List Json} {newline : String}
    (indexed : Catalog.ofSchema generator.schema = .ok catalog)
    (breaks : generator.settings.newline = .text newline)
    (listed : generator.settings.references.items = .ok references)
    (shown : generator.settings.NamesFree isBreak references)
    (definitions : ∀ definition ∈ catalog.definitions,
      definition.creatable = true → definition.ShownFree isBreak) (unit : String) :
    (generator.indentedBy unit).generate.1 = .ok (Layout.render unit newline
      (SourceFile.lines generator.settings references catalog)) := by
  have indexed' : Catalog.ofSchema (generator.indentedBy unit).schema = .ok catalog := indexed
  have same : (generator.indentedBy unit).settings.NamesFree isBreak references :=
    ⟨shown.moduleName, shown.factoryModule, shown.visitorModule, shown.comment, shown.references⟩
  rw [generate_of_indexed indexed', SourceFile.text_eq_render same rfl breaks listed definitions]
  rfl

/-- A generated file is lines at their depths for every unit at once, and all but the body of the
entry point begin with a visible character. -/
theorem Generator.generate_indented {generator : Generator} {catalog : Catalog}
    {references : List Json} {newline : String}
    (indexed : Catalog.ofSchema generator.schema = .ok catalog)
    (breaks : generator.settings.newline = .text newline)
    (listed : generator.settings.references.items = .ok references)
    (shown : generator.settings.NamesFree isBreak references)
    (names : ∀ definition ∈ catalog.definitions,
      definition.creatable = true → definition.NamesFree isBreak) :
    ∃ upper lower : List Line, (∀ line ∈ upper ++ lower, line.Flush) ∧
      upper.getLast? = some (Visitor.fallbackHeader 2) ∧
      lower.head? = some (.filled 2 "\x7d") ∧
      ∀ unit, (generator.indentedBy unit).generate.1 = .ok (Layout.render unit newline
        (upper ++ Visitor.fallbackBody 2 ++ lower)) := by
  have definitions : ∀ definition ∈ catalog.definitions,
      definition.creatable = true → definition.ShownFree isBreak := by
    intro definition found creatable
    obtain ⟨raw, canonizes⟩ := Catalog.exists_canonizes indexed found
    exact ⟨names definition found creatable, canonizes.typesFree creatable⟩
  refine ⟨SourceFile.upperLines generator.settings references catalog.definitions,
    SourceFile.lowerLines generator.settings catalog, ?_, ?_, rfl, fun unit => ?_⟩
  · exact List.forall_mem_append.mpr
      ⟨SourceFile.upperLines_flush shown definitions, SourceFile.lowerLines_flush shown definitions⟩
  · rw [SourceFile.upperLines, List.getLast?_append]
    rfl
  · rw [generate_indentedBy indexed breaks listed shown definitions, SourceFile.lines_eq]

theorem Generator.generate_sample_indented : ∃ upper lower : List Line,
    (∀ line ∈ upper ++ lower, line.Flush) ∧
      ∀ unit, (({ schema := sampleSchema } : Generator).indentedBy unit).generate.1 =
        .ok (Layout.render unit "\n" (upper ++ Visitor.fallbackBody 2 ++ lower)) := by
  let generator : Generator := { schema := sampleSchema }
  have indexed : Catalog.ofSchema generator.schema = .ok sampleCatalog := ofSchema_sampleSchema
  have listed : generator.settings.references.items =
    .ok [.text "parser.ts", .text "factory.ts"] := rfl
  obtain ⟨upper, lower, flush, -, -, written⟩ :=
    generate_indented indexed rfl listed (by decide) (by decide)
  exact ⟨upper, lower, flush, written⟩

/-- Not even the file of an empty schema is lines that begin with visible characters for every
unit: without any unit the body of the entry point is still indented. -/
theorem Generator.generate_empty_not_flush : ¬∃ lines : List Line,
    (∀ line ∈ lines, line.Flush) ∧
      ∀ unit, (({ schema := .list [] } : Generator).indentedBy unit).generate.1 =
        .ok (Layout.render unit "\n" lines) := by
  rintro ⟨lines, flush, written⟩
  let generator : Generator := { schema := .list [] }
  have indexed : Catalog.ofSchema generator.schema = .ok ⟨[], {}⟩ := rfl
  have listed : generator.settings.references.items =
    .ok [.text "parser.ts", .text "factory.ts"] := rfl
  have known := generate_indentedBy indexed rfl listed (by decide) (by decide) ""
  rw [written ""] at known
  have same := Except.ok.inj known
  have actual : Text.lines (Layout.render "" "\n" (SourceFile.lines {}
      [.text "parser.ts", .text "factory.ts"] ⟨[], {}⟩)) = _ :=
    lines_intercalate (by decide) (by decide)
  have found : "    if (!cbNode || !node) \x7b" ∈ Text.lines (Layout.render "" "\n" lines) := by
    rw [same, actual]
    decide
  rcases Layout.lead_of_mem_render flush _ found with empty | leads
  · exact absurd empty (by decide)
  · exact absurd leads (by decide)

end NodeSmith
