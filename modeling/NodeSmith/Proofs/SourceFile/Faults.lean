import NodeSmith.Generator
import NodeSmith.Proofs.Catalog.Faults
import NodeSmith.Proofs.Layout.Trace
import NodeSmith.Proofs.Settings

set_option autoImplicit false

namespace NodeSmith

open Outcome
open Layout (Code Command Cursor Token Style)

namespace Layout

/-- A line that comes behind a due break, at a depth, begins with a break and indentation. -/
theorem Cursor.endLine_deep {cursor : Cursor} (due : cursor.breakDue = true)
    (deep : cursor.depth ≠ 0) (unsuspended : cursor.suspended = 0) {content first : String}
    {rest : List String} (split : Text.lines content = first :: rest) (visible : first ≠ "") :
    ∃ more, (cursor.endLine content).2 = .lineBreak :: .indentation cursor.depth :: more := by
  have shown : first.isEmpty = false := by
    rw [String.isEmpty_eq_false_iff]
    exact visible
  have margin : (cursor.place first).2 =
      [.lineBreak, .indentation cursor.depth, .stretch first] := by
    simp only [place, settle, breakLine, Cursor.margin, due, shown, unsuspended, Bool.false_eq_true,
      ↓reduceIte, Bool.not_false, Bool.true_and, BEq.rfl, bne_iff_ne, ne_eq, deep, not_false_iff]
    rfl
  refine ⟨.stretch first :: ((cursor.place first).1.placeLines rest).2, ?_⟩
  simp only [endLine, Text.isEmpty_of_lines split visible, Bool.false_eq_true, ↓reduceIte, write,
    split, margin]
  rfl

end Layout

theorem Factory.toList_moduleLine (settings : Settings) : (moduleLine settings).toList =
    'e' :: ("xport module ".toList ++ settings.factoryModule.display.toList ++ " \x7b".toList) := by
  rw [moduleLine, String.toList_append, String.toList_append]
  rfl

namespace Json

def needFaults (value : Json) : List Fault := if value.isText then [] else [.notText]

def stuckFaults (value : Json) : List Fault := if value.walkable then [] else [.notIterable]

theorem asText_reports (value : Json) : Reports value.needFaults value.asText := by
  cases value <;> rfl

theorem items_reports (value : Json) : Reports value.stuckFaults value.items := by
  cases value <;> rfl

theorem needFaults_eq_nil_iff {value : Json} : value.needFaults = [] ↔ value.isText = true := by
  unfold needFaults
  cases value.isText <;> decide

theorem stuckFaults_eq_nil_iff {value : Json} :
    value.stuckFaults = [] ↔ value.walkable = true := by
  unfold stuckFaults
  cases value.walkable <;> decide

end Json

namespace Settings

def faults (settings : Settings) : List Fault :=
  settings.references.stuckFaults ++
    (settings.newline.needFaults ++ settings.indentUnit.needFaults)

theorem mem_faults {settings : Settings} {fault : Fault} (member : fault ∈ settings.faults) :
    fault = .notText ∨ fault = .notIterable := by
  have only {wrong : Bool} {right : Fault} (found : fault ∈ if wrong then [] else [right]) :
      fault = right := by
    cases wrong with
    | false => exact List.mem_singleton.mp found
    | true => exact absurd found List.not_mem_nil
  rw [faults, List.mem_append, List.mem_append] at member
  rcases member with found | found | found
  · exact .inr (only found)
  · exact .inl (only found)
  · exact .inl (only found)

theorem faults_eq_nil_iff {settings : Settings} : settings.faults = [] ↔
    settings.references.walkable = true ∧ settings.newline.isText = true ∧
      settings.indentUnit.isText = true := by
  simp only [faults, List.append_eq_nil_iff, Json.stuckFaults_eq_nil_iff,
    Json.needFaults_eq_nil_iff]

end Settings

namespace SourceFile

/-- Where the module is open, a line is due at a depth. -/
theorem opening_run (preamble module : String) : ∃ cursor tokens,
    Cursor.run {} [.line preamble, .line "", .line module, .indent] = (cursor, tokens) ∧
      cursor.depth = 1 ∧ cursor.suspended = 0 ∧ cursor.breakDue = true :=
  have behind := Cursor.behind_nil.run [.line preamble, .line "", .line module, .indent]
  ⟨_, _, rfl, behind.depth_eq, behind.suspended_eq, rfl⟩

theorem code_tokens {settings : Settings} {catalog : Catalog} {codes : List Code}
    (made : code settings catalog = .ok codes) :
    (({} : Cursor).run (Code.commandsOf codes)).2.any Token.isBreak = true ∧
      (({} : Cursor).run (Code.commandsOf codes)).2.any Token.isIndentation = true := by
  obtain ⟨preamble, -, made⟩ := bind_eq_ok.mp made
  have begins : ∃ rest, Code.commandsOf codes =
      [.line preamble, .line "", .line (moduleLine settings), .indent] ++
        .line (Factory.moduleLine settings) :: rest := by
    rw [← pure_eq_ok.mp made]
    exact ⟨_, rfl⟩
  obtain ⟨rest, begins⟩ := begins
  -- The line that opens the factory breaks and indents, whatever was laid out before it.
  obtain ⟨cursor, tokens, opened, depth, unsuspended, due⟩ :=
    opening_run preamble (moduleLine settings)
  obtain ⟨first, more, split, visible⟩ :=
    Text.exists_lines_eq_cons (Factory.toList_moduleLine settings) rfl
  have deep : cursor.depth ≠ 0 := by
    rw [depth]
    exact Nat.one_ne_zero
  obtain ⟨others, placed⟩ := Cursor.endLine_deep due deep unsuspended split visible
  rw [begins, Cursor.run_append, opened, Cursor.run_cons]
  simp only [Cursor.step, placed, List.any_append, List.any_cons, Token.isBreak,
    Token.isIndentation, Bool.true_or, Bool.or_true, Bool.false_or, and_self]

/-- Laying out a file fails with its first fault. -/
theorem text_reports (settings : Settings) (catalog : Catalog) :
    Reports settings.faults (text settings catalog) := by
  have made : Reports settings.references.stuckFaults (code settings catalog) :=
    (settings.references.items_reports.map _).map _
  rw [text_eq]
  refine made.bind fun codes made => ?_
  obtain ⟨breaks, indents⟩ := code_tokens made
  unfold Style.text
  rw [breaks, indents]
  exact settings.newline.asText_reports.bind fun newline _ =>
    settings.indentUnit.asText_reports.map _

end SourceFile

namespace Generator

/-- After its schema is read, a generation fails with the first fault of its definitions and its
settings. -/
theorem text_reports {schema : Json} {definitions : List Definition}
    (read : Definition.listOfJson schema = .ok definitions) (settings : Settings) :
    Reports (definitions.flatMap Definition.textFaults ++ settings.faults)
      (text { schema, settings }) := by
  have catalog : Catalog.ofSchema schema = Catalog.ofDefinitions definitions := by
    rw [Catalog.ofSchema, read]
    rfl
  rw [text, catalog]
  exact (Catalog.ofDefinitions_reports definitions).bind fun catalog _ =>
    SourceFile.text_reports settings catalog

/-- A generation comes to a text exactly if its schema can be read, text stands where text is
needed, and the settings can be used. If the schema cannot be read, its first fault is that of the
generation, and if it can, the only faults are that text or items are wanting. -/
theorem generate_ok_iff (schema : Json) (fields : List (String × Json)) :
    ∃ settings, Settings.ofJson (.record fields) = .ok settings ∧
      ((∃ text, (generate { schema, settings }).1 = .ok text) ↔
        Schema.Shaped schema ∧ Schema.Textual schema ∧
          (Json.given fields "references" (Settings.references {})).walkable = true ∧
          (Json.given fields "newline" (Settings.newline {})).isText = true ∧
          (Json.given fields "indent_unit" (Settings.indentUnit {})).isText = true) ∧
      (¬Schema.Shaped schema → ∃ fault, (Schema.shapeFaults schema).head? = some fault ∧
        (generate { schema, settings }).1 = .error fault) ∧
      (Schema.Shaped schema → ∀ fault, (generate { schema, settings }).1 = .error fault →
        fault = .notText ∨ fault = .notIterable) := by
  obtain ⟨settings, made, references, newline, indentUnit⟩ := Settings.ofJson_given fields
  refine ⟨settings, made, ?_⟩
  rw [← references, ← newline, ← indentUnit, generate_fst, ← Settings.faults_eq_nil_iff,
    ← Schema.shapeFaults_eq_nil_iff]
  have shape := Definition.listOfJson_reports schema
  -- The whole schema is read before anything else can fail.
  cases read : Definition.listOfJson schema with
  | error fault =>
    have fails : text { schema, settings } = .error fault := by
      rw [text, Catalog.ofSchema, read]
      rfl
    rw [read] at shape
    have faulty : Schema.shapeFaults schema ≠ [] := by
      intro none
      rw [none] at shape
      cases shape
    rw [fails]
    refine ⟨⟨?_, fun fine => absurd fine.1 faulty⟩, fun _ => ⟨fault, shape, rfl⟩,
      fun fine => absurd fine faulty⟩
    rintro ⟨text, impossible⟩
    cases impossible
  | ok definitions =>
    rw [read] at shape
    have reports := text_reports read settings
    refine ⟨?_, fun faulty => absurd shape faulty, fun _ fault fails => ?_⟩
    · rw [reports.exists_ok_iff, List.append_eq_nil_iff, Schema.textFaults_schema read]
      exact (and_iff_right shape).symm
    · rcases List.mem_append.mp (reports.mem fails) with found | found
      · obtain ⟨definition, -, found⟩ := List.mem_flatMap.mp found
        exact .inl (Definition.eq_notText_of_mem_textFaults found)
      · exact Settings.mem_faults found

/-- Members that have no items, before a record that is none. -/
def sampleShapeless : Json := .list [.record [("children", .bool true)], .null]

/-- A type that is no text, after values that are absent. -/
def sampleTextless : Json :=
  .list [.record [("kind", .list []), ("name", .bool false), ("type", .number (.whole 1))]]

theorem generate_samples_ok_iff :
    (∃ text, (generate { schema := .text "" }).1 = .ok text) ∧
      (generate { schema := sampleShapeless }).1 = .error .notIterable ∧
      ∃ fault, (generate { schema := sampleTextless }).1 = .error fault ∧
        (fault = .notText ∨ fault = .notIterable) := by
  refine ⟨?_, ?_, ?_⟩
  · obtain ⟨_, made, whole, -, -⟩ := generate_ok_iff (.text "") []
    cases made
    exact whole.mpr ⟨⟨rfl, nofun⟩, nofun, rfl, rfl, rfl⟩
  · obtain ⟨_, made, -, broken, -⟩ := generate_ok_iff sampleShapeless []
    cases made
    have faults : Schema.shapeFaults sampleShapeless = [.notIterable, .notRecord] := rfl
    obtain ⟨fault, first, fails⟩ := broken (by
      rw [← Schema.shapeFaults_eq_nil_iff, faults]
      exact List.cons_ne_nil _ _)
    rw [faults] at first
    cases first
    exact fails
  · obtain ⟨_, made, whole, -, others⟩ := generate_ok_iff sampleTextless []
    cases made
    have shaped : Schema.Shaped sampleTextless := Schema.shapeFaults_eq_nil_iff.mp rfl
    have textless : ¬Schema.Textual sampleTextless := by
      intro textual
      have typed := (textual _ List.mem_cons_self).1 "type" (by decide)
      rcases typed with absent | written
      · cases absent
      · cases written
    cases outcome : (generate { schema := sampleTextless }).1 with
    | ok text => exact absurd (whole.mp ⟨text, outcome⟩).2.1 textless
    | error fault => exact ⟨fault, rfl, others shaped fault outcome⟩

end Generator

end NodeSmith
