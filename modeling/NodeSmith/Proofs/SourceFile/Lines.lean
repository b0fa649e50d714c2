import NodeSmith.Generator
import NodeSmith.Proofs.Dispatch
import NodeSmith.Proofs.Layout.Lines
import NodeSmith.Proofs.SourceFile.Values

set_option autoImplicit false

namespace NodeSmith

open Layout (Code Line Lays LaysEach Cursor Token)
open Text

namespace Factory

def createLines (depth : Nat) (definition : Definition) : List Line :=
  let type := definition.type.display
  Line.filled depth ("export function create" ++ definition.name.display ++ "(" ++
      ", ".intercalate (createParameters definition) ++ "): " ++ type ++ " \x7b") ::
    (Line.filled (depth + 1)
        ("var node = beginNode<" ++ type ++ ">(SyntaxKind." ++ definition.kind.display ++ ");") ::
      definition.memberList.map (fun member => Line.filled (depth + 1)
        ("node." ++ member.name.display ++ " = " ++ initializer member ++ ";")) ++
      [Line.filled (depth + 1)
        ("return finishNode(" ++ ", ".intercalate (finishArguments definition) ++ ");")]) ++
    [Line.filled depth "\x7d"]

def updateLines (depth : Nat) (definition : Definition) : List Line :=
  let name := definition.name.display
  [Line.filled depth ("export function update" ++ name ++ "(" ++
      ", ".intercalate (updateParameters definition) ++ "): " ++ definition.type.display ++
      " \x7b"),
    Line.filled (depth + 1)
      ("if (" ++ " || ".intercalate (definition.mutableMembers.map changeTest) ++ ") \x7b"),
    Line.filled (depth + 2)
      ("return create" ++ name ++ "(" ++ ", ".intercalate (carriedArguments definition) ++ ");"),
    Line.filled (depth + 1) "\x7d",
    Line.filled (depth + 1) "return node;",
    Line.filled depth "\x7d"]

/-- The blocks of a definition: its create function and its update function, as far as it has
them. -/
def blocks (depth : Nat) (definition : Definition) : List (List Line) :=
  (if definition.creatable then [createLines depth definition] else []) ++
    (if definition.updatable then [updateLines depth definition] else [])

end Factory

namespace Visitor

/-- The lines of the entry point. Within them the depth does not count. -/
def fallbackLines (depth : Nat) : List Line :=
  [Line.filled depth ("export function fallback<TNode extends Node>(" ++
      "node: TNode, cbNode: Visitor, state?: any): TNode \x7b"),
    Line.filled depth "    if (!cbNode || !node) \x7b",
    Line.filled depth "        return node;",
    Line.filled depth "    \x7d",
    Line.filled depth "    return <TNode>accept(node, cbNode, state);",
    Line.filled depth "\x7d"]

/-- Arguments on lines of their own, with a comma after each but the last, which closes the call. -/
def argumentLines (depth : Nat) : List String → List Line
  | [] => []
  | [last] => [Line.filled depth (last ++ ");")]
  | first :: rest => Line.filled depth (first ++ ",") :: argumentLines depth rest

def rebuildLines (depth : Nat) (settings : Settings) (tables : Tables) (definition : Definition) :
    List Line :=
  Line.filled depth ("return " ++ settings.factoryModule.display ++ ".update" ++
      definition.name.display ++ "(") ::
    argumentLines (depth + 1) (rebuildArguments tables definition)

/-- The cases of a group, and the body that they share. -/
def caseLines (depth : Nat) (settings : Settings) (tables : Tables) (group : DispatchGroup) :
    List Line :=
  group.members.map (fun definition =>
      Line.filled depth ("case SyntaxKind." ++ definition.kind.display ++ ":")) ++
    if group.updatable then
      (group.members.head?.map (rebuildLines (depth + 1) settings tables)).getD []
    else [Line.filled (depth + 1) "return node;"]

def acceptLines (depth : Nat) (settings : Settings) (catalog : Catalog) : List Line :=
  Line.filled depth "function accept(node: Node, cbNode: Visitor, state?: any): Node \x7b" ::
    (Line.filled (depth + 1) "switch (node.kind) \x7b" ::
      (DispatchGroup.ofDefinitions catalog.definitions).flatMap
        (caseLines (depth + 2) settings catalog.tables) ++
      [Line.filled (depth + 1) "\x7d"]) ++
    [Line.filled depth "\x7d"]

end Visitor

namespace SourceFile

def headLines (settings : Settings) (references : List Json) : List Line :=
  Line.filled 0 "// <auto-generated />" ::
    (if settings.comment.present then
      [Line.filled 0 ("// " ++ settings.comment.display)] else []) ++
    references.map fun reference =>
      Line.filled 0 ("/// <reference path=\"" ++ reference.display ++ "\"/>")

def bodyLines (settings : Settings) (catalog : Catalog) : List Line :=
  [Line.blank, Line.filled 0 ("module " ++ settings.moduleName.display ++ " \x7b"),
    Line.filled 1 ("export module " ++ settings.factoryModule.display ++ " \x7b")] ++
  [Line.blank].intercalate (catalog.definitions.flatMap (Factory.blocks 2)) ++
  [Line.filled 1 "\x7d", Line.blank,
    Line.filled 1 ("export module " ++ settings.visitorModule.display ++ " \x7b")] ++
  Visitor.fallbackLines 2 ++ [Line.blank] ++ Visitor.acceptLines 2 settings catalog ++
  [Line.filled 1 "\x7d", Line.filled 0 "\x7d"]

def lines (settings : Settings) (references : List Json) (catalog : Catalog) : List Line :=
  headLines settings references ++ bodyLines settings catalog

end SourceFile

section Laid

variable {depth : Nat} {before : Bool}

theorem isMark_of_isBreak (c : Char) (broken : isBreak c = true) : isMark c = true := by
  rw [isMark, broken, Bool.or_true]

theorem visible_append {front last : String} (visible : last ≠ "") : front ++ last ≠ "" := by
  intro empty
  exact visible (String.append_eq_empty_iff.mp empty).2

theorem unbroken_opening {header : String} (unbroken : Unbroken header) :
    Unbroken (header ++ " \x7b") := free_append.mpr ⟨unbroken, by decide⟩

theorem return_lays :
    Lays depth before [.line "return node;"] [.filled depth "return node;"] true :=
  .line (by decide) (by decide)

namespace Factory

variable {definition : Definition}

theorem createFunction_lays (shown : definition.ShownFree isBreak) :
    Lays depth before (createFunction definition) (createLines depth definition) true := by
  obtain ⟨names, types⟩ := shown
  have header := Definition.free_createHeader isMark_of_isBreak names types
  have beginning : Lays (depth + 1) true _ _ true :=
    .line (Definition.free_beginning isMark_of_isBreak types) (visible_append (by decide))
  have stores : Lays (depth + 1) true _ _ true :=
    .lines (Definition.free_stores isMark_of_isBreak names) fun _ _ => visible_append (by decide)
  have finish : Lays (depth + 1) true _ _ true :=
    .line (Definition.free_finish isMark_of_isBreak names) (visible_append (by decide))
  exact .block (unbroken_opening header) (visible_append (by decide))
    ((beginning.append stores).append finish)

theorem updateFunction_lays (shown : definition.ShownFree isBreak) :
    Lays depth before (updateFunction definition) (updateLines depth definition) true := by
  obtain ⟨names, types⟩ := shown
  have header := Definition.free_updateHeader isMark_of_isBreak names types
  have changes : Unbroken ("if (" ++
      " || ".intercalate (definition.mutableMembers.map changeTest) ++ ") \x7b") :=
    free_append.mpr ⟨Definition.free_changes isMark_of_isBreak names, by decide⟩
  have recreation : Lays (depth + 2) true _ _ true :=
    .line (Definition.free_recreation isMark_of_isBreak names) (visible_append (by decide))
  have guarded : Lays (depth + 1) true _ _ true :=
    .block changes (visible_append (by decide)) recreation
  exact .block (unbroken_opening header) (visible_append (by decide))
    (guarded.append return_lays)

theorem functions_lay (shown : definition.creatable = true → definition.ShownFree isBreak) :
    LaysEach depth (functions definition) (blocks depth definition) := by
  unfold functions blocks create? update?
  cases creatable : definition.creatable with
  | false =>
    have fixed : definition.updatable = false := by
      rw [Definition.updatable, creatable, Bool.false_and]
    rw [fixed]
    exact .nil
  | true =>
    have create (before : Bool) : Lays depth before (createFunction definition) _ true :=
      createFunction_lays (shown creatable)
    have update (before : Bool) : Lays depth before (updateFunction definition) _ true :=
      updateFunction_lays (shown creatable)
    cases definition.updatable with
    | false => exact .cons create .nil
    | true => exact .cons create (.cons update .nil)

theorem allFunctions_lay {definitions : List Definition} (shown : ∀ definition ∈ definitions,
      definition.creatable = true → definition.ShownFree isBreak) :
    LaysEach depth (definitions.flatMap functions) (definitions.flatMap (blocks depth)) := by
  induction definitions with
  | nil => exact .nil
  | cons definition rest ih =>
    rw [List.flatMap_cons, List.flatMap_cons]
    exact List.rel_append (functions_lay (shown definition List.mem_cons_self))
      (ih fun other member => shown other (List.mem_cons_of_mem _ member))

end Factory

namespace Visitor

theorem lines_fallbackText : lines fallbackText =
    ["export function fallback<TNode extends Node>(" ++
        "node: TNode, cbNode: Visitor, state?: any): TNode \x7b",
      "    if (!cbNode || !node) \x7b",
      "        return node;",
      "    \x7d",
      "    return <TNode>accept(node, cbNode, state);",
      "\x7d"] := by
  have chars : stretches fallbackText.toList =
      ["export function fallback<TNode extends Node>(".toList ++
          "node: TNode, cbNode: Visitor, state?: any): TNode \x7b".toList,
        "    if (!cbNode || !node) \x7b".toList,
        "        return node;".toList,
        "    \x7d".toList,
        "    return <TNode>accept(node, cbNode, state);".toList,
        "\x7d".toList] := by
    unfold fallbackText
    -- The characters of the texts are written out before anything is decided about them.
    repeat rw [String.toList_append]
    repeat rw [String.toList_ofList]
    decide +kernel
  rw [lines, chars, List.map_cons, String.ofList_append]
  simp only [List.map_cons, List.map_nil, String.ofList_toList]

theorem fallback_lays : Lays depth true fallback (fallbackLines depth ++ [Line.blank]) false := by
  have visible : fallbackText ≠ "" := by decide
  have entry : Lays depth true _ _ _ := Lays.text visible
  rw [Line.ofText, lines_fallbackText] at entry
  exact entry.append .blank

theorem commaLines_lays {arguments : List String}
    (unbroken : ∀ argument ∈ arguments, Unbroken argument) :
    Lays depth true (commaLines ");" arguments) (argumentLines depth arguments) true := by
  have closing : Unbroken ");" := by decide
  have comma : Unbroken "," := by decide
  induction arguments with
  | nil => exact .nil
  | cons first rest ih =>
    have alone := unbroken first List.mem_cons_self
    cases rest with
    | nil => exact .line (free_append.mpr ⟨alone, closing⟩) (visible_append (by decide))
    | cons second rest =>
      exact .cons (.line (free_append.mpr ⟨alone, comma⟩) (visible_append (by decide)))
        (ih fun other member => unbroken other (List.mem_cons_of_mem _ member))

variable {settings : Settings} (module : Unbroken settings.factoryModule.display)
include module

theorem rebuild_lays {definition : Definition} (shown : definition.ShownFree isBreak)
    (tables : Tables) : Lays depth true (rebuild settings tables definition)
      (rebuildLines depth settings tables definition) true := by
  have header := Definition.free_rebuildHeader isMark_of_isBreak shown.names module
  have arguments :=
    Definition.free_rebuildArguments isMark_of_isBreak shown.names shown.types tables
  exact .cons (.line header (visible_append (by decide))) (.nested (commaLines_lays arguments))

theorem cases_lays {group : DispatchGroup}
    (shown : ∀ definition ∈ group.members, definition.ShownFree isBreak) (tables : Tables) :
    Lays depth true (cases settings tables group) (caseLines depth settings tables group)
      true := by
  have labels : ∀ definition ∈ group.members,
      Unbroken ("case SyntaxKind." ++ definition.kind.display ++ ":") := by
    intro definition listed
    exact Definition.free_label isMark_of_isBreak (shown definition listed).types
  refine .append (.lines labels fun _ _ => visible_append (by decide)) ?_
  unfold body
  split
  · cases listed : group.members with
    | nil => exact .nested .nil
    | cons definition rest =>
      have head : definition ∈ group.members := by
        rw [listed]
        exact List.mem_cons_self
      exact .nested (rebuild_lays module (shown definition head) tables)
  · exact .nested return_lays

theorem accept_lays {catalog : Catalog} (shown : ∀ definition ∈ catalog.definitions,
      definition.creatable = true → definition.ShownFree isBreak) :
    Lays depth before (accept settings catalog) (acceptLines depth settings catalog) true := by
  have header :
      Unbroken "function accept(node: Node, cbNode: Visitor, state?: any): Node \x7b" := by
    decide
  have switch : Unbroken "switch (node.kind) \x7b" := by decide
  have groups : Lays (depth + 2) true
      ((DispatchGroup.ofDefinitions catalog.definitions).flatMap (cases settings catalog.tables))
      ((DispatchGroup.ofDefinitions catalog.definitions).flatMap
        (caseLines (depth + 2) settings catalog.tables)) true := by
    apply Lays.flatMap
    intro group found
    apply cases_lays module
    intro definition member
    obtain ⟨listed, creatable⟩ := DispatchGroup.mem_of_mem_ofDefinitions found member
    exact shown definition listed creatable
  exact .block header (by decide) (.block switch (by decide) groups)

end Visitor

end Laid

namespace SourceFile

variable {settings : Settings} {references : List Json}
  (names : settings.NamesFree isBreak references)
include names

omit names in
theorem preambleLines_visible :
    ∀ content ∈ preambleLines settings references, content ≠ "" := by
  intro content found
  rcases List.mem_append.mp found with fixed | referred
  · rcases List.mem_cons.mp fixed with rfl | remark
    · decide
    · split at remark
      · rw [List.mem_singleton.mp remark]
        intro empty
        exact absurd (String.append_eq_empty_iff.mp empty).1 (by decide)
      · exact absurd remark List.not_mem_nil
  · obtain ⟨reference, listed, rfl⟩ := List.mem_map.mp referred
    exact visible_append (by decide)

/-- The preamble, which has no break at its end to drop. -/
theorem preambleText_eq (listed : settings.references.items = .ok references) :
    preambleText settings = .ok ("\n".intercalate (preambleLines settings references)) := by
  have unbroken := free_preambleLines isMark_of_isBreak names
  rw [preambleText, listed]
  change Except.ok _ = _
  rw [dropTrailingBreaks_intercalate unbroken preambleLines_visible]

theorem modules_lay {catalog : Catalog} (shown : ∀ definition ∈ catalog.definitions,
      definition.creatable = true → definition.ShownFree isBreak) :
    Lays 0 true
      [.blank, .line (moduleLine settings),
        .nested (Factory.code settings catalog.definitions ++ Visitor.code settings catalog),
        .line "\x7d"]
      (bodyLines settings catalog) true := by
  have outer : Unbroken ("module " ++ settings.moduleName.display) := by
    simp +decide only [free_append, names.moduleName, and_self]
  have factory : Unbroken ("export module " ++ settings.factoryModule.display) := by
    simp +decide only [free_append, names.factoryModule, and_self]
  have visitor : Unbroken ("export module " ++ settings.visitorModule.display) := by
    simp +decide only [free_append, names.visitorModule, and_self]
  have creating : Lays 1 true (Factory.code settings catalog.definitions) _ false :=
    (Lays.block (unbroken_opening factory) (visible_append (by decide))
      (Lays.separated (Factory.allFunctions_lay shown))).append .blank
  have visiting : Lays 1 false (Visitor.code settings catalog) _ true :=
    Lays.block (unbroken_opening visitor) (visible_append (by decide))
      (Visitor.fallback_lays.append (Visitor.accept_lays names.factoryModule shown))
  have whole : Lays 0 true _ _ true :=
    Lays.blank.append (Lays.block (unbroken_opening outer) (visible_append (by decide))
      (creating.append visiting))
  simp only [bodyLines, List.cons_append, List.nil_append, List.append_assoc] at whole ⊢
  exact whole

omit names in
theorem headLines_eq : headLines settings references =
    (preambleLines settings references).map (.filled 0) := by
  unfold headLines preambleLines
  rw [List.map_append, List.map_cons, List.map_map]
  split <;> rfl

omit names in
theorem text_of_preamble {preamble : String} (catalog : Catalog)
    (made : preambleText settings = .ok preamble) :
    text settings catalog = settings.style.text (({} : Cursor).run (Code.commandsOf
      [.line preamble, .blank, .line (moduleLine settings),
        .nested (Factory.code settings catalog.definitions ++ Visitor.code settings catalog),
        .line "\x7d"])).2 := by
  rw [text_eq, code, made, Outcome.ok_bind, pure_bind]

/-- The text of a file is its lines, laid out without any state. -/
theorem text_eq_render {catalog : Catalog} {unit newline : String}
    (indents : settings.indentUnit = .text unit) (breaks : settings.newline = .text newline)
    (listed : settings.references.items = .ok references)
    (shown : ∀ definition ∈ catalog.definitions,
      definition.creatable = true → definition.ShownFree isBreak) :
    text settings catalog =
      .ok (Layout.render unit newline (lines settings references catalog)) := by
  have some : preambleLines settings references ≠ [] := List.cons_ne_nil _ _
  have laid := Layout.text_run unit newline some (free_preambleLines isMark_of_isBreak names)
    preambleLines_visible (modules_lay names shown)
  have written (tokens : List Token) :
      settings.style.text tokens = .ok (Layout.text unit newline tokens) :=
    Layout.Style.text_of_text indents breaks tokens
  rw [lines, headLines_eq, ← laid, ← written,
    text_of_preamble catalog (preambleText_eq names listed)]

end SourceFile

/-- A generated file is its lines, laid out without any state, wherever the names and the settings
that it shows are lines themselves. -/
theorem Generator.generate_eq_render {generator : Generator} {catalog : Catalog}
    {references : List Json} {unit newline : String}
    (indexed : Catalog.ofSchema generator.schema = .ok catalog)
    (indents : generator.settings.indentUnit = .text unit)
    (breaks : generator.settings.newline = .text newline)
    (listed : generator.settings.references.items = .ok references)
    (shown : generator.settings.NamesFree isBreak references)
    (names : ∀ definition ∈ catalog.definitions,
      definition.creatable = true → definition.NamesFree isBreak) :
    generator.generate.1 = .ok (Layout.render unit newline
      (SourceFile.lines generator.settings references catalog)) := by
  rw [generate_of_indexed indexed]
  apply SourceFile.text_eq_render shown indents breaks listed
  intro definition found creatable
  obtain ⟨raw, canonizes⟩ := Catalog.exists_canonizes indexed found
  exact ⟨names definition found creatable, canonizes.typesFree creatable⟩

theorem Generator.generate_sample_eq_render :
    ({ schema := sampleSchema } : Generator).generate.1 = .ok (Layout.render "    " "\n"
      (SourceFile.lines {} [.text "parser.ts", .text "factory.ts"] sampleCatalog)) :=
  generate_eq_render ofSchema_sampleSchema rfl rfl rfl (by decide) (by decide)

end NodeSmith
