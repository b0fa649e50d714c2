import NodeSmith.Proofs.Layout.Emission
import NodeSmith.Proofs.SourceFile.Lines

set_option autoImplicit false

namespace NodeSmith.Factory

open Layout (Code Cursor Emission Lays Line Style Token)
open Text (isBreak)

inductive Call
  | create (definition : Definition)
  | update (definition : Definition)

/-- Where the factory stands between calls: the cursor, and whether a function was written. -/
structure Progress where
  cursor : Cursor
  written : Bool

structure Step where
  before : Progress
  call : Call
  emission : Emission
  after : Progress

namespace Call

def definition : Call → Definition
  | create definition | update definition => definition

def function? : Call → Option (List Code)
  | create definition => create? definition
  | update definition => update? definition

/-- The lines of the function, if the definition has it. -/
def block? (depth : Nat) : Call → Option (List Line)
  | create definition => if definition.creatable then some (createLines depth definition) else none
  | update definition => if definition.updatable then some (updateLines depth definition) else none

def perform (style : Style) (progress : Progress) (call : Call) : Step :=
  let (now, code) := follow progress.written call.function?
  let (emission, written) :=
    emitParts style progress.cursor progress.written [⟨Code.commandsOf code, now⟩]
  ⟨progress, call, emission, ⟨emission.cursor, written⟩⟩

end Call

def history (style : Style) (progress : Progress) : List Call → List Step
  | [] => []
  | call :: rest =>
    let step := call.perform style progress
    step :: history style step.after rest

def laid (steps : List Step) : List Token := steps.flatMap fun step => step.emission.tokens

namespace Call

variable {call : Call} {depth : Nat}

theorem block?_eq_none_iff : call.block? depth = none ↔ call.function? = none := by
  cases call with
  | create definition => simp [block?, function?, create?]
  | update definition => simp [block?, function?, update?]

theorem ne_nil_of_block? {block : List Line} (made : call.block? depth = some block) :
    block ≠ [] := by
  cases call with
  | create definition =>
    rw [block?, Option.ite_none_right_eq_some] at made
    rw [← Option.some.inj made.2]
    exact List.cons_ne_nil _ _
  | update definition =>
    rw [block?, Option.ite_none_right_eq_some] at made
    rw [← Option.some.inj made.2]
    exact List.cons_ne_nil _ _

theorem lays (shown : call.definition.creatable = true → call.definition.ShownFree isBreak)
    {function : List Code} (found : call.function? = some function) :
    ∃ block, call.block? depth = some block ∧
      ∀ opened, Lays depth opened function block true := by
  cases call with
  | create definition =>
    rw [function?, create?, Option.ite_none_right_eq_some] at found
    obtain ⟨creatable, made⟩ := found
    rw [← Option.some.inj made, block?, if_pos creatable]
    exact ⟨_, rfl, fun _ => createFunction_lays (shown creatable)⟩
  | update definition =>
    rw [function?, update?, Option.ite_none_right_eq_some] at found
    obtain ⟨updatable, made⟩ := found
    rw [← Option.some.inj made, block?, if_pos updatable]
    exact ⟨_, rfl, fun _ =>
      updateFunction_lays (shown (Definition.creatable_of_updatable updatable))⟩

/-- A call for a function that is not there leaves no trace, in whatever style. -/
theorem perform_of_none (style : Style) (progress : Progress) (none : call.function? = none) :
    call.perform style progress = ⟨progress, call, .start progress.cursor, progress⟩ := by
  simp only [perform, none, follow, Code.commandsOf_nil, emitParts, Cursor.emitAll,
    Emission.start_andThen]
  rfl

theorem perform_of_some {function : List Code} (found : call.function? = some function)
    (unit newline : String) (progress : Progress) :
    let laid := progress.cursor.run
      (Code.commandsOf (if progress.written then .blank :: function else function))
    call.perform ⟨.text unit, .text newline⟩ progress =
      ⟨progress, call, ⟨laid.1, laid.2, .ok ()⟩, ⟨laid.1, true⟩⟩ := by
  intro laid
  have admitted : laid.2.all (Style.admits ⟨.text unit, .text newline⟩) = true :=
    List.all_eq_true.mpr fun token _ => Style.admits_of_text _ unit rfl token
  have emitted := Cursor.emitAll_of_admits _ _ _ admitted
  simp only [perform, found, follow, emitParts, emitted, Emission.andThen, Emission.start,
    List.append_nil]
  rfl

end Call

/-- The factory stands between lines at a depth; where it has written a function, the line before
has text. -/
def Ready (depth : Nat) (progress : Progress) : Prop :=
  ∃ opened, progress.cursor.Between depth opened ∧ (progress.written = true → opened = true)

/-- The lines of a block behind others. -/
def followLines (written : Bool) (block : List Line) : List Line :=
  if written then .blank :: block else block

/-- The lines of blocks, with a blank line before each that has one before it. -/
def separatedLines (written : Bool) : List (List Line) → List Line
  | [] => []
  | block :: rest => followLines written block ++ separatedLines true rest

theorem eq_perform_of_mem_history {style : Style} {progress : Progress} {calls : List Call}
    {step : Step} (found : step ∈ history style progress calls) :
    step = step.call.perform style step.before := by
  induction calls generalizing progress with
  | nil => exact absurd found List.not_mem_nil
  | cons call rest ih =>
    rcases List.mem_cons.mp found with rfl | later
    · rfl
    · exact ih later

section Separation

variable {call : Call} {calls : List Call} {depth : Nat} {progress : Progress}
  (unit newline : String)

/-- A call keeps the factory between lines at its depth, and lays out its block if it has one. -/
theorem Ready.perform (ready : Ready depth progress)
    (shown : call.definition.creatable = true → call.definition.ShownFree isBreak) :
    let step := call.perform ⟨.text unit, .text newline⟩ progress
    step.emission.result = .ok () ∧ Ready depth step.after ∧
      ((call.block? depth = none ∧ step.emission.tokens = [] ∧
          step.after.written = progress.written) ∨
        ∃ block, call.block? depth = some block ∧
          step.emission.tokens = (followLines progress.written block).flatMap Line.tokens ∧
          step.after.written = true) := by
  intro step
  cases found : call.function? with
  | none =>
    have same : step = ⟨progress, call, .start progress.cursor, progress⟩ :=
      call.perform_of_none _ progress found
    rw [same]
    exact ⟨rfl, ready, .inl ⟨Call.block?_eq_none_iff.mpr found, rfl, rfl⟩⟩
  | some function =>
    obtain ⟨block, made, lays⟩ := call.lays shown found
    obtain ⟨opened, between, visible⟩ := ready
    have whole : Lays depth opened (if progress.written then .blank :: function else function)
        (followLines progress.written block) true := by
      unfold followLines
      cases written : progress.written with
      | false => exact lays opened
      | true =>
        rw [visible written]
        exact Lays.cons .blank (lays false)
    obtain ⟨tokens, ended⟩ := whole _ between
    have same : step = _ := Call.perform_of_some found unit newline progress
    rw [same]
    exact ⟨rfl, ⟨true, ended, fun _ => rfl⟩, .inr ⟨block, made, tokens, rfl⟩⟩

/-- Calls one after another lay out their blocks, and keep the factory between lines. -/
theorem Ready.history (ready : Ready depth progress) (shown : ∀ call ∈ calls,
      call.definition.creatable = true → call.definition.ShownFree isBreak) :
    let steps := history ⟨.text unit, .text newline⟩ progress calls
    (∀ step ∈ steps, step.emission.result = .ok () ∧ Ready depth step.after) ∧
      laid steps = (separatedLines progress.written
        (calls.filterMap (Call.block? depth))).flatMap Line.tokens := by
  induction calls generalizing progress with
  | nil => exact ⟨List.forall_mem_nil _, rfl⟩
  | cons call rest ih =>
    obtain ⟨done, after, came⟩ :=
      ready.perform unit newline (shown call List.mem_cons_self)
    obtain ⟨each, later⟩ := ih after fun other member =>
      shown other (List.mem_cons_of_mem _ member)
    refine ⟨List.forall_mem_cons.mpr ⟨⟨done, after⟩, each⟩, ?_⟩
    rw [Factory.history, laid, List.flatMap_cons, ← laid, later]
    rcases came with ⟨none, nothing, kept⟩ | ⟨block, made, tokens, wrote⟩
    · rw [List.filterMap_cons_none none, nothing, kept, List.nil_append]
    · rw [List.filterMap_cons_some made, tokens, wrote, separatedLines, List.flatMap_append]

end Separation

section Text

variable {blocks : List (List Line)} (unit newline : String)

theorem join_block {block : List Line} (some : block ≠ []) :
    String.join (block.map fun line => newline ++ line.render unit) =
      newline ++ Layout.render unit newline block := by
  obtain ⟨first, rest, rfl⟩ := List.exists_cons_of_ne_nil some
  rw [List.map_cons, String.join_cons, Layout.render_cons, String.append_assoc]

/-- Blocks behind another one have two breaks before each. -/
theorem join_separatedLines (some : ∀ block ∈ blocks, block ≠ []) :
    String.join ((separatedLines true blocks).map fun line => newline ++ line.render unit) =
      String.join ((blocks.map (Layout.render unit newline)).map fun text =>
        newline ++ newline ++ text) := by
  induction blocks with
  | nil => rfl
  | cons block rest ih =>
    obtain ⟨here, later⟩ := List.forall_mem_cons.mp some
    rw [separatedLines, followLines, if_pos rfl, List.cons_append, List.map_cons, List.map_append,
      String.join_cons, String.join_append, join_block unit newline here, ih later, Line.render,
      String.append_empty, List.map_cons, List.map_cons, String.join_cons]
    simp only [String.append_assoc]

/-- Blocks after a due break are joined by blank lines. -/
theorem text_separatedLines (some : ∀ block ∈ blocks, block ≠ []) :
    Layout.text unit newline ((separatedLines false blocks).flatMap Line.tokens) =
      if blocks = [] then ""
      else
        newline ++ (newline ++ newline).intercalate (blocks.map (Layout.render unit newline)) := by
  rw [Layout.text_flatMap_tokens]
  cases blocks with
  | nil => rfl
  | cons block rest =>
    obtain ⟨here, later⟩ := List.forall_mem_cons.mp some
    rw [separatedLines, followLines, if_neg Bool.false_ne_true, List.map_append, String.join_append,
      join_block unit newline here, join_separatedLines unit newline later,
      if_neg (List.cons_ne_nil _ _), List.map_cons, Layout.intercalate_cons_eq_join,
      String.append_assoc]

end Text

/-- Whichever functions are asked for, in whatever order, the text is the blocks of those that
there are, each as it stands alone, with one blank line between two of them. Every call leaves the
depth as it was, and one for a function that is not there leaves everything as it was. -/
theorem calls_separated {raws : List Definition} {catalog : Catalog} {calls : List Call}
    {cursor : Cursor} {depth : Nat} {opened : Bool}
    (indexed : Catalog.ofDefinitions raws = .ok catalog)
    (names : ∀ definition ∈ catalog.definitions,
      definition.creatable = true → definition.NamesFree isBreak)
    (listed : ∀ call ∈ calls, call.definition ∈ catalog.definitions)
    (between : cursor.Between depth opened) (unit newline : String) :
    let style : Style := ⟨.text unit, .text newline⟩
    let steps := history style ⟨cursor, false⟩ calls
    let blocks := calls.filterMap (Call.block? depth)
    style.text (laid steps) = .ok (if blocks = [] then "" else
        newline ++ (newline ++ newline).intercalate
          (blocks.map (Layout.render unit newline))) ∧
      ∀ step ∈ steps, step.emission.result = .ok () ∧ step.after.cursor.depth = depth ∧
        (step.call.block? depth = none →
          step.emission.tokens = [] ∧ step.after = step.before) := by
  intro style steps blocks
  have shown : ∀ call ∈ calls, call.definition.creatable = true →
      call.definition.ShownFree isBreak := by
    intro call asked creatable
    obtain ⟨raw, -, canonizes⟩ := Outcome.exists_of_mem_right
      (Catalog.ofDefinitions_eq_ok indexed).1 (listed call asked)
    exact ⟨names _ (listed call asked) creatable, canonizes.typesFree creatable⟩
  have ready : Ready depth ⟨cursor, false⟩ := ⟨opened, between, nofun⟩
  obtain ⟨each, tokens⟩ := ready.history unit newline shown
  have some : ∀ block ∈ blocks, block ≠ [] := by
    intro block found
    obtain ⟨call, -, made⟩ := List.mem_filterMap.mp found
    exact Call.ne_nil_of_block? made
  refine ⟨?_, fun step found => ?_⟩
  · rw [Style.text_of_text rfl rfl, tokens, text_separatedLines unit newline some]
  · obtain ⟨done, after, between, -⟩ := each step found
    refine ⟨done, between.depth_eq, fun none => ?_⟩
    have carried := eq_perform_of_mem_history found
    rw [carried, Call.perform_of_none _ _ (Call.block?_eq_none_iff.mp none)]
    exact ⟨rfl, rfl⟩

/-- A definition without mutable members has no update function, and a call for one leaves no
blank line. -/
theorem sample_calls_separated :
    let last : Definition := { kind := .text "EndOfFile", name := .text "EndOfFile" }
    let style : Style := ⟨.text "  ", .text "\n"⟩
    let steps := history style ⟨{ depth := 1, breakDue := true, started := true }, false⟩
      [.update last, .update sampleIdentifier, .update last, .create last,
        .update sampleIdentifier]
    style.text (laid steps) = .ok ("\n" ++ "\n\n".intercalate
        ([updateLines 1 sampleIdentifier, createLines 1 last, updateLines 1 sampleIdentifier].map
          (Layout.render "  " "\n"))) ∧
      ∀ step ∈ steps, step.after.cursor.depth = 1 := by
  intro last style steps
  obtain ⟨raws, -, indexed⟩ := Catalog.ofSchema_eq_ok ofSchema_sampleSchema
  have between : Cursor.Between 1 false { depth := 1, breakDue := true, started := true } :=
    ⟨rfl, rfl, rfl, rfl⟩
  have listed : ∀ call ∈ [Call.update last, .update sampleIdentifier, .update last, .create last,
      .update sampleIdentifier], call.definition ∈ sampleCatalog.definitions := by
    simp [Call.definition, sampleCatalog, sampleDefinitions, last]
  obtain ⟨text, each⟩ := calls_separated indexed (by decide) listed between "  " "\n"
  exact ⟨text, fun step found => (each step found).2.1⟩

end NodeSmith.Factory
