import NodeSmith.Generator
import NodeSmith.Proofs.Dispatch
import NodeSmith.Proofs.Files.Publication
import NodeSmith.Proofs.Layout.Content
import NodeSmith.Proofs.SourceFile.Values
import NodeSmith.Proofs.Text.Nesting

set_option autoImplicit false

namespace NodeSmith

open Layout (Code Token Cursor)
open Text

theorem isMark_of_isBrace (c : Char) (brace : isBrace c = true) : isMark c = true := by
  rw [isBrace] at brace
  rw [isMark, brace, Bool.true_or]

namespace Layout

def Code.steps (codes : List Code) : List DyckStep := braceSteps (Code.content codes)

theorem Code.steps_append (first second : List Code) :
    steps (first ++ second) = steps first ++ steps second := by
  rw [steps, content_append, braceSteps_append, steps, steps]

theorem Code.steps_line (text : String) : steps [.line text] = braceSteps text.toList := by
  rw [steps, content_line, braceSteps_filter]
  intro c broken
  rw [Bool.not_eq_false', isBreak, Bool.or_eq_true, beq_iff_eq, beq_iff_eq] at broken
  rcases broken with rfl | rfl <;> rfl

def Balanced (codes : List Code) : Prop := Nested (Code.steps codes)

namespace Balanced

variable {codes first second body : List Code} {text : String}

theorem nil : Balanced [] := Nested.nil

theorem append (balanced : Balanced first) (further : Balanced second) :
    Balanced (first ++ second) := by
  unfold Balanced at *
  rw [Code.steps_append]
  exact balanced.append further

theorem blank : Balanced [.blank] := Nested.nil

theorem nested (balanced : Balanced body) : Balanced [.nested body] := by
  unfold Balanced Code.steps at *
  rwa [Code.content_nested]

theorem line (free : Free isBrace text) : Balanced [.line text] := by
  unfold Balanced
  rw [Code.steps_line, braceSteps_of_free free]
  exact Nested.nil

theorem cons (free : Free isBrace text) (balanced : Balanced codes) :
    Balanced (.line text :: codes) := append (line free) balanced

/-- A block: a line that opens it, the code in it, and the brace that closes it. -/
theorem block (opens : braceSteps text.toList = [DyckStep.U]) (balanced : Balanced body) :
    Balanced [.line text, .nested body, .line "\x7d"] := by
  have footer : Code.steps [.line "\x7d"] = [DyckStep.D] := rfl
  have whole : Code.steps ([Code.line text] ++ [Code.nested body] ++ [Code.line "\x7d"]) =
      DyckStep.U :: Code.steps body ++ [DyckStep.D] := by
    rw [Code.steps_append, Code.steps_append, Code.steps_line, opens, footer, Code.steps,
      Code.content_nested]
    rfl
  unfold Balanced at *
  exact whole ▸ balanced.block

theorem lines {α : Type} {items : List α} {content : α → String}
    (free : ∀ item ∈ items, Free isBrace (content item)) :
    Balanced (items.map fun item => .line (content item)) := by
  induction items with
  | nil => exact nil
  | cons item rest ih =>
    rw [List.map_cons]
    exact cons (free item List.mem_cons_self)
      (ih fun other member => free other (List.mem_cons_of_mem _ member))

theorem flatMap {α : Type} {items : List α} {code : α → List Code}
    (each : ∀ item ∈ items, Balanced (code item)) : Balanced (items.flatMap code) := by
  induction items with
  | nil => exact nil
  | cons item rest ih =>
    rw [List.flatMap_cons]
    exact append (each item List.mem_cons_self)
      (ih fun other member => each other (List.mem_cons_of_mem _ member))

theorem separated {pieces : List (List Code)} (each : ∀ piece ∈ pieces, Balanced piece) :
    Balanced (Code.separated pieces) := by
  cases pieces with
  | nil => exact nil
  | cons first rest =>
    rw [Code.separated_cons]
    apply append (each first List.mem_cons_self)
    apply flatMap
    intro piece member
    exact append blank (each piece (List.mem_cons_of_mem _ member))

end Balanced

end Layout

namespace Factory

variable {definition : Definition} (shown : definition.ShownFree isBrace)
include shown

theorem createFunction_balanced : Layout.Balanced (createFunction definition) := by
  obtain ⟨names, types⟩ := shown
  have header := Definition.free_createHeader isMark_of_isBrace names types
  have beginning := Definition.free_beginning isMark_of_isBrace types
  have stores := Definition.free_stores isMark_of_isBrace names
  have finish := Definition.free_finish isMark_of_isBrace names
  exact .block (braceSteps_append_of_free header _)
    (.append (.cons beginning (.lines stores)) (.line finish))

theorem updateFunction_balanced : Layout.Balanced (updateFunction definition) := by
  obtain ⟨names, types⟩ := shown
  have header := Definition.free_updateHeader isMark_of_isBrace names types
  have changes := Definition.free_changes isMark_of_isBrace names
  have recreation := Definition.free_recreation isMark_of_isBrace names
  have returned : Free isBrace "return node;" := by decide
  have guarded : Layout.Balanced _ :=
    Layout.Balanced.block (braceSteps_append_of_free changes ") \x7b") (.line recreation)
  exact .block (braceSteps_append_of_free header _) (guarded.append (.line returned))

omit shown in
theorem functions_balanced (shown : definition.creatable = true → definition.ShownFree isBrace) :
    ∀ piece ∈ functions definition, Layout.Balanced piece := by
  intro piece found
  rcases List.mem_append.mp found with created | updated
  · unfold create? at created
    split at created
    · rename_i creatable
      rw [List.mem_singleton.mp created]
      exact createFunction_balanced (shown creatable)
    · exact absurd created List.not_mem_nil
  · unfold update? at updated
    split at updated
    · rename_i updatable
      rw [List.mem_singleton.mp updated]
      exact updateFunction_balanced (shown (Definition.creatable_of_updatable updatable))
    · exact absurd updated List.not_mem_nil

end Factory

section Modules

variable {settings : Settings} {references : List Json} {catalog : Catalog}
  (names : settings.NamesFree isBrace references)
  (shown : ∀ definition ∈ catalog.definitions,
    definition.creatable = true → definition.ShownFree isBrace)
include names shown

theorem Factory.code_balanced :
    Layout.Balanced (Factory.code settings catalog.definitions) := by
  have header : Free isBrace ("export module " ++ settings.factoryModule.display) := by
    simp +decide only [free_append, names.factoryModule, and_self]
  have separated : Layout.Balanced
      (Code.separated (catalog.definitions.flatMap Factory.functions)) := by
    apply Layout.Balanced.separated
    intro piece found
    obtain ⟨definition, listed, among⟩ := List.mem_flatMap.mp found
    exact Factory.functions_balanced (shown definition listed) piece among
  exact (Layout.Balanced.block (braceSteps_append_of_free header " \x7b") separated).append .blank

namespace Visitor

omit names shown in
theorem fallback_balanced : Layout.Balanced fallback := by
  have steps : braceSteps fallbackText.toList = [.U, .U, .D, .D] := by
    unfold fallbackText
    repeat rw [String.toList_append]
    repeat rw [braceSteps_append]
    repeat rw [String.toList_ofList]
    rfl
  have entry : Layout.Balanced [.line fallbackText] := by
    unfold Layout.Balanced
    rw [Code.steps_line, steps]
    exact Nested.nil.block.block
  exact entry.append .blank

omit names shown in
theorem commaLines_balanced {closing : String} (closes : Free isBrace closing)
    {arguments : List String} (free : ∀ argument ∈ arguments, Free isBrace argument) :
    Layout.Balanced (commaLines closing arguments) := by
  have comma : Free isBrace "," := by decide
  induction arguments with
  | nil => exact .nil
  | cons first rest ih =>
    have alone := free first List.mem_cons_self
    cases rest with
    | nil => exact .line (free_append.mpr ⟨alone, closes⟩)
    | cons second rest =>
      exact .cons (free_append.mpr ⟨alone, comma⟩)
        (ih fun other member => free other (List.mem_cons_of_mem _ member))

omit shown in
theorem cases_balanced {group : DispatchGroup}
    (shown : ∀ definition ∈ group.members, definition.ShownFree isBrace) (tables : Tables) :
    Layout.Balanced (cases settings tables group) := by
  have labels : Layout.Balanced (group.members.map label) :=
    .lines fun definition listed =>
      Definition.free_label isMark_of_isBrace (shown definition listed).types
  refine labels.append (.nested ?_)
  unfold body
  split
  · cases listed : group.members with
    | nil => exact .nil
    | cons definition rest =>
      have ⟨own, types⟩ := shown definition (listed ▸ List.mem_cons_self)
      have header :=
        Definition.free_rebuildHeader isMark_of_isBrace own names.factoryModule
      have arguments := Definition.free_rebuildArguments isMark_of_isBrace own types tables
      exact .cons header (.nested (commaLines_balanced (by decide) arguments))
  · exact .line (by decide)

theorem code_balanced : Layout.Balanced (Visitor.code settings catalog) := by
  have header : Free isBrace ("export module " ++ settings.visitorModule.display) := by
    simp +decide only [free_append, names.visitorModule, and_self]
  have groups : Layout.Balanced ((DispatchGroup.ofDefinitions catalog.definitions).flatMap
      (cases settings catalog.tables)) := by
    apply Layout.Balanced.flatMap
    intro group found
    apply cases_balanced names
    intro definition member
    obtain ⟨listed, creatable⟩ := DispatchGroup.mem_of_mem_ofDefinitions found member
    exact shown definition listed creatable
  have accepted : Layout.Balanced (accept settings catalog) :=
    .block (by decide) (.block (by decide) groups)
  have inner : Layout.Balanced (fallback ++ accept settings catalog) :=
    Layout.Balanced.append fallback_balanced accepted
  exact .block (braceSteps_append_of_free header _) inner

end Visitor

namespace SourceFile

omit shown in
theorem preambleText_free {preamble : String} (listed : settings.references.items = .ok references)
    (made : preambleText settings = .ok preamble) : Free isBrace preamble := by
  rw [preambleText, listed] at made
  have same := Except.ok.inj made
  rw [← same]
  have joined : Free isBrace ("\n".intercalate (preambleLines settings references)) :=
    free_intercalate (by decide) (free_preambleLines isMark_of_isBrace names)
  intro c member
  rw [dropTrailingBreaks, String.toList_ofList, List.mem_reverse] at member
  exact joined c (List.mem_reverse.mp ((List.dropWhile_sublist _).mem member))

/-- The braces of the code before the last line: the one that opens the outer module, and nested
ones. -/
theorem code_steps {codes : List Code} (listed : settings.references.items = .ok references)
    (made : code settings catalog = .ok codes) :
    ∃ front inner, codes = front ++ [Code.line "\x7d"] ∧ Code.steps front = DyckStep.U :: inner ∧
      Nested inner := by
  obtain ⟨preamble, prefaced, made⟩ := Outcome.bind_eq_ok.mp made
  have same := Except.ok.inj made
  subst same
  have header : Free isBrace ("module " ++ settings.moduleName.display) := by
    simp +decide only [free_append, names.moduleName, and_self]
  have opens : Code.steps [.line preamble, .blank, .line (moduleLine settings)] = [DyckStep.U] := by
    have apart : [Code.line preamble, .blank, .line (moduleLine settings)] =
      [Code.line preamble] ++ [Code.blank] ++ [Code.line (moduleLine settings)] := rfl
    have none : Code.steps [.blank] = [] := rfl
    rw [apart, Code.steps_append, Code.steps_append, Code.steps_line,
      braceSteps_of_free (preambleText_free names listed prefaced), none, Code.steps_line,
      moduleLine, braceSteps_append_of_free header]
    rfl
  have inner := (Factory.code_balanced names shown).append (Visitor.code_balanced names shown)
  refine ⟨[Code.line preamble, Code.blank, Code.line (moduleLine settings)] ++ [Code.nested _], _,
    rfl, ?_, inner.nested⟩
  rw [Code.steps_append, opens]
  rfl

theorem text_braces {written : String} (made : text settings catalog = .ok written)
    (indents : ∀ unit, settings.indentUnit = .text unit → Free isBrace unit)
    (breaks : ∀ newline, settings.newline = .text newline → Free isBrace newline)
    (listed : settings.references.items = .ok references) :
    ∃ head body, written.toList = head ++ '{' :: body ++ ['}'] ∧
      (∀ c ∈ head, isBrace c = false) ∧ Nested (braceSteps body) := by
  rw [text_eq] at made
  obtain ⟨codes, coded, made⟩ := Outcome.bind_eq_ok.mp made
  obtain ⟨front, inner, rfl, opens, nested⟩ := code_steps names shown listed coded
  obtain ⟨unit, newline, rfl, indent, feed⟩ := Layout.Style.exists_of_text_eq_ok made
  have unitFree : Free isBrace unit := by
    rcases indent with rfl | given
    · exact free_empty
    · exact indents unit given
  have newlineFree : Free isBrace newline := by
    rcases feed with rfl | given
    · exact free_empty
    · exact breaks newline given
  obtain ⟨tokens, laid, kept⟩ := ({} : Cursor).exists_run_line front
    (by decide : Unbroken "\x7d") (by decide)
  -- The last brace stands alone in the last stretch; those before it are the braces of the code.
  have before : braceSteps (Layout.text unit newline tokens).toList = DyckStep.U :: inner := by
    have same (c : Char) (other : isBrace c = false) : isBrace c = false := other
    rw [← braceSteps_filter _ same, Layout.filter_text unitFree newlineFree, kept,
      braceSteps_filter _ same]
    exact opens
  obtain ⟨head, brace, body, split, none, opened, rest⟩ := List.filterMap_eq_cons_iff.mp before
  have isOpen := (braceStep_eq_up brace).mp opened
  subst isOpen
  refine ⟨head, body, ?_, ?_, ?_⟩
  · have last : Layout.text unit newline [.stretch "\x7d"] = "\x7d" := by
      rw [Layout.text_eq_join]
      rfl
    rw [laid, Layout.text_append, last, String.toList_append, split]
    rfl
  · intro c member
    exact (braceStep_eq_none c).mp (none c member)
  · change Nested (body.filterMap braceStep)
    rwa [rest]

omit names shown in
/-- In a style of texts a file comes out, whatever it shows. -/
theorem exists_text_eq_ok {unit newline : String} (indents : settings.indentUnit = .text unit)
    (breaks : settings.newline = .text newline)
    (listed : settings.references.items = .ok references) :
    ∃ content, text settings catalog = .ok content := by
  have coded : ∃ codes, code settings catalog = .ok codes := by
    rw [code, preambleText, listed]
    exact ⟨_, rfl⟩
  obtain ⟨codes, coded⟩ := coded
  rw [text_eq, coded]
  exact ⟨_, Layout.Style.text_of_text indents breaks _⟩

end SourceFile

end Modules

/-- The braces of a generated file are nested, all of them within the outer module, and no check of
them stops its publication, wherever neither the values that it shows nor its breaks and
indentation have braces. -/
theorem Generator.braces_nested {generator : Generator} {catalog : Catalog}
    {references : List Json} {content : String}
    (indexed : Catalog.ofSchema generator.schema = .ok catalog)
    (listed : generator.settings.references.items = .ok references)
    (made : generator.generate.1 = .ok content)
    (indents : ∀ unit, generator.settings.indentUnit = .text unit → Free isBrace unit)
    (breaks : ∀ newline, generator.settings.newline = .text newline → Free isBrace newline)
    (names : generator.settings.NamesFree isBrace references)
    (shown : ∀ definition ∈ catalog.definitions,
      definition.creatable = true → definition.ShownFree isBrace) :
    (∀ front, front <+: content.toList → front.count '}' ≤ front.count '{') ∧
      content.toList.count '{' = content.toList.count '}' ∧
      (∃ head body, content.toList = head ++ '{' :: body ++ ['}'] ∧
        (∀ c ∈ head, isBrace c = false) ∧
        ∀ front, front <+: body →
          (head ++ '{' :: front).count '}' < (head ++ '{' :: front).count '{') ∧
      ∀ target tree reason after,
        (Session.publish generator.settings generator.schema target : TreeM Tables) tree ≠
          .error (.rejected reason) after := by
  have written := made
  rw [generate_of_indexed indexed] at written
  rw [generate_fst] at made
  obtain ⟨head, body, split, none, nested⟩ :=
    SourceFile.text_braces names shown written indents breaks listed
  have plain : braceSteps head = [] := by
    rw [braceSteps, List.filterMap_eq_nil_iff]
    intro c member
    exact (braceStep_eq_none c).mpr (none c member)
  have whole : Nested (braceSteps content.toList) := by
    have steps : braceSteps content.toList = DyckStep.U :: braceSteps body ++ [DyckStep.D] := by
      rw [split, braceSteps_append, braceSteps_append, plain]
      rfl
    exact steps ▸ nested.block
  refine ⟨fun front => whole.count_le, whole.count_eq, ⟨head, body, split, none, ?_⟩, ?_⟩
  · intro front prefixed
    have inside := nested.count_le prefixed
    have opened : head.count '{' = 0 := List.count_eq_zero.mpr fun member =>
      absurd (none _ member) (by decide)
    have closed : head.count '}' = 0 := List.count_eq_zero.mpr fun member =>
      absurd (none _ member) (by decide)
    rw [List.count_append, List.count_append, List.count_cons_self,
      List.count_cons_of_ne (by decide), opened, closed]
    omega
  · intro target tree reason after failed
    have brace : '}' ∈ content.toList := by
      rw [split]
      exact List.mem_append_right _ List.mem_cons_self
    have passes := Publication.wellBraced_eq_ok brace (by decide) whole.count_eq
    exact Session.publish_unrelated made passes target tree _ after failed reason rfl

theorem Generator.sample_braces_nested : ∃ content,
    ({ schema := sampleSchema } : Generator).generate.1 = .ok content ∧
      content.toList.count '{' = content.toList.count '}' := by
  obtain ⟨content, written⟩ : ∃ content, SourceFile.text {} sampleCatalog = .ok content :=
    SourceFile.exists_text_eq_ok rfl rfl rfl
  have made : ({ schema := sampleSchema } : Generator).generate.1 = .ok content := by
    rw [generate_of_indexed ofSchema_sampleSchema, ← written]
  exact ⟨content, made, (braces_nested ofSchema_sampleSchema rfl made (by rintro _ ⟨⟩; decide)
    (by rintro _ ⟨⟩; decide) (by decide) (by decide)).2.1⟩

end NodeSmith
