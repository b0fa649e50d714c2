import Mathlib.Algebra.Ring.Nat
import NodeSmith.Layout.Emission
import NodeSmith.Proofs.Layout.Parts

set_option autoImplicit false

namespace NodeSmith.Layout

/-- The stretches between the line breaks of the text in a request. -/
def Command.pieces : Command → List String
  | .write content | .line content => if content = "" then [] else Text.lines content
  | .indent | .dedent | .suspend | .resume => []

/-- How often a request asks for the end of a line. -/
def Command.closings : Command → Nat
  | .line _ => 1
  | .write _ | .indent | .dedent | .suspend | .resume => 0

/-- The place between the last piece of text and the next. -/
structure Gap where
  /-- Whether there is a piece before it. -/
  inside : Bool := false
  /-- How often the end of a line has been asked for since. -/
  requested : Nat := 0
  deriving DecidableEq, Repr

/-- How many breaks stand before the next piece. -/
def Gap.breaks (gap : Gap) : Nat := min (if gap.inside then 2 else 1) gap.requested

/-- The place after a request. What a request with text asks for comes after its last piece. -/
def Gap.after (gap : Gap) (command : Command) : Gap :=
  match command.pieces with
  | [] => { gap with requested := gap.requested + command.closings }
  | _ :: _ => ⟨true, command.closings⟩

theorem Command.pieces_write {content : String} (given : content ≠ "") :
    (Command.write content).pieces = Text.lines content := if_neg given

theorem Command.pieces_line {content : String} (given : content ≠ "") :
    (Command.line content).pieces = Text.lines content := if_neg given

theorem Gap.after_of_text (gap : Gap) {command : Command} (given : command.pieces ≠ []) :
    gap.after command = ⟨true, command.closings⟩ := by
  obtain ⟨first, more, pieces⟩ := List.exists_cons_of_ne_nil given
  rw [Gap.after, pieces]

/-- All breaks but the last one stay the same when the end of a line is asked for once more, unless
a line that has a piece was ended once before. -/
theorem Gap.breaks_succ_of_settled {gap : Gap} (settled : gap.inside = true → gap.requested ≠ 1) :
    Gap.breaks { gap with requested := gap.requested + 1 } - 1 = gap.breaks - 1 := by
  unfold Gap.breaks
  cases inside : gap.inside with
  | false => simp only [Bool.false_eq_true, ↓reduceIte]; omega
  | true =>
    have other := settled inside
    simp only [↓reduceIte]
    omega

/-- A piece with the number of breaks before it. -/
structure Spaced where
  breaks : Nat
  piece : String
  deriving DecidableEq, Repr

/-- The pieces of a request. Those of one text have one break between them. -/
def Gap.spaced (gap : Gap) (command : Command) : List Spaced :=
  match command.pieces with
  | [] => []
  | first :: more => ⟨gap.breaks, first⟩ :: more.map fun piece => ⟨1, piece⟩

def Gap.spacing (gap : Gap) : List Command → List Spaced
  | [] => []
  | command :: rest => gap.spaced command ++ (gap.after command).spacing rest

def Spaced.tokens (spaced : Spaced) : List Token :=
  List.replicate spaced.breaks .lineBreak ++ [.stretch spaced.piece]

def unindented (tokens : List Token) : List Token :=
  tokens.filter fun token => !token.isIndentation

@[simp] theorem unindented_append (first second : List Token) :
    unindented (first ++ second) = unindented first ++ unindented second := List.filter_append ..

namespace Cursor

variable {cursor : Cursor} {gap : Gap}

/-- The cursor is in a gap. Of its breaks all but the last have been made. -/
structure Waits (gap : Gap) (cursor : Cursor) : Prop where
  breakDue_eq : cursor.breakDue = decide (0 < gap.requested)
  lineOpen_eq : cursor.lineOpen = (gap.inside && decide (gap.requested ≤ 1))

theorem unindented_margin (cursor : Cursor) : unindented cursor.margin = [] := by
  unfold margin
  split <;> rfl

theorem place_piece (cursor : Cursor) {piece : String} (visible : piece ≠ "") :
    (cursor.place piece).1.Waits ⟨true, 0⟩ ∧
      unindented (cursor.place piece).2 =
        (if cursor.breakDue then [.lineBreak] else []) ++ [.stretch piece] := by
  have placed := place_of_not_due cursor.settle_breakDue piece
  rw [if_neg visible] at placed
  rw [place_eq_settle, placed]
  refine ⟨⟨cursor.settle_breakDue, rfl⟩, ?_⟩
  rw [unindented_append, unindented_append, unindented_margin, settle]
  split <;> rfl

theorem placeLines_pieces (waits : cursor.Waits ⟨true, 0⟩) {pieces : List String}
    (visible : ∀ piece ∈ pieces, piece ≠ "") :
    (cursor.placeLines pieces).1.Waits ⟨true, 0⟩ ∧
      unindented (cursor.placeLines pieces).2 =
        (pieces.map fun piece => (⟨1, piece⟩ : Spaced)).flatMap Spaced.tokens := by
  induction pieces generalizing cursor with
  | nil => exact ⟨waits, rfl⟩
  | cons piece rest ih =>
    obtain ⟨here, later⟩ := List.forall_mem_cons.mp visible
    obtain ⟨ready, placed⟩ := place_piece { cursor with breakDue := true } here
    obtain ⟨ends, more⟩ := ih ready later
    refine ⟨ends, ?_⟩
    rw [placeLines, unindented_append, placed, more, List.map_cons, List.flatMap_cons]
    rfl

/-- The breaks of a gap are those that have been made and the one that is due. -/
theorem Waits.replicate_breaks (waits : cursor.Waits gap) :
    List.replicate (gap.breaks - 1) Token.lineBreak ++
        (if cursor.breakDue then [.lineBreak] else []) =
      List.replicate gap.breaks .lineBreak := by
  rw [waits.breakDue_eq]
  by_cases requested : 0 < gap.requested
  · have some : gap.breaks = (gap.breaks - 1) + 1 := by
      unfold Gap.breaks
      split <;> omega
    simp only [requested, decide_true, ↓reduceIte]
    rw [← List.replicate_one, List.replicate_append_replicate, ← some]
  · have none : gap.breaks = 0 := by
      unfold Gap.breaks
      omega
    simp [requested, none]

theorem Waits.write (waits : cursor.Waits gap) {content : String} (given : content ≠ "")
    (visible : ∀ piece ∈ Text.lines content, piece ≠ "") :
    (cursor.write content).1.Waits ⟨true, 0⟩ ∧
      List.replicate (gap.breaks - 1) .lineBreak ++ unindented (cursor.write content).2 =
        (gap.spaced (.write content)).flatMap Spaced.tokens := by
  obtain ⟨first, more, split⟩ := List.exists_cons_of_ne_nil (Text.lines_ne_nil content)
  rw [split] at visible
  obtain ⟨here, later⟩ := List.forall_mem_cons.mp visible
  obtain ⟨ready, placed⟩ := cursor.place_piece here
  obtain ⟨ends, rest⟩ := placeLines_pieces ready later
  rw [write_eq_reach cursor [] given split, Gap.spaced, Command.pieces_write given, split]
  refine ⟨ends, ?_⟩
  simp only [reach, List.nil_append, unindented_append, placed, rest, List.flatMap_cons]
  rw [← List.append_assoc, ← List.append_assoc, waits.replicate_breaks]
  rfl

/-- With a text missing the break that is due is made only behind a piece, and once. -/
theorem Waits.endLine_of_settled (waits : cursor.Waits gap)
    (settled : gap.inside = true → gap.requested ≠ 1) :
    cursor.endLine "" = ({ cursor with breakDue := true }, []) := by
  have still : (cursor.breakDue && cursor.lineOpen) = false := by
    rw [waits.breakDue_eq, waits.lineOpen_eq]
    cases inside : gap.inside with
    | false => simp
    | true =>
      have other := settled inside
      simp only [Bool.true_and, ← Bool.decide_and, decide_eq_false_iff_not]
      omega
  simp [endLine, still]

theorem Waits.endLine_empty (waits : cursor.Waits gap) :
    (cursor.endLine "").1.Waits { gap with requested := gap.requested + 1 } ∧
      List.replicate (gap.breaks - 1) .lineBreak ++ unindented (cursor.endLine "").2 =
        List.replicate (Gap.breaks { gap with requested := gap.requested + 1 } - 1)
          .lineBreak := by
  by_cases settled : gap.inside = true → gap.requested ≠ 1
  · rw [waits.endLine_of_settled settled, Gap.breaks_succ_of_settled settled]
    refine ⟨⟨by simp, ?_⟩, List.append_nil _⟩
    cases inside : gap.inside with
    | false => simp [waits.lineOpen_eq, inside]
    | true =>
      have other := settled inside
      simp only [waits.lineOpen_eq, inside, Bool.true_and, decide_eq_decide]
      omega
  · obtain ⟨due, opened⟩ := waits
    obtain ⟨inside, requested⟩ := gap
    obtain ⟨rfl, rfl⟩ : inside = true ∧ requested = 1 := by simpa using settled
    simp only [endLine, due, opened, breakLine]
    exact ⟨⟨rfl, rfl⟩, rfl⟩

/-- A request keeps the cursor in the gap that it leaves, behind its pieces. -/
theorem Waits.step (waits : cursor.Waits gap) {command : Command}
    (visible : ∀ piece ∈ command.pieces, piece ≠ "") :
    (cursor.step command).1.Waits (gap.after command) ∧
      List.replicate (gap.breaks - 1) .lineBreak ++ unindented (cursor.step command).2 =
        (gap.spaced command).flatMap Spaced.tokens ++
          List.replicate ((gap.after command).breaks - 1) .lineBreak := by
  cases command with
  | write content =>
    by_cases empty : content = ""
    · subst empty
      exact ⟨waits, List.append_nil _⟩
    · have pieces := Command.pieces_write empty
      rw [pieces] at visible
      obtain ⟨ready, placed⟩ := waits.write empty visible
      rw [gap.after_of_text (pieces ▸ Text.lines_ne_nil content)]
      exact ⟨ready, placed.trans (List.append_nil _).symm⟩
  | line content =>
    by_cases empty : content = ""
    · subst empty
      exact waits.endLine_empty
    · have pieces := Command.pieces_line empty
      rw [pieces] at visible
      obtain ⟨ready, placed⟩ := waits.write empty visible
      rw [gap.after_of_text (pieces ▸ Text.lines_ne_nil content), step_line cursor empty]
      exact ⟨⟨rfl, ready.lineOpen_eq⟩, placed.trans (List.append_nil _).symm⟩
  | indent | dedent | suspend | resume =>
    exact ⟨⟨waits.breakDue_eq, waits.lineOpen_eq⟩, List.append_nil _⟩

theorem Waits.run (waits : cursor.Waits gap) {commands : List Command}
    (visible : ∀ command ∈ commands, ∀ piece ∈ command.pieces, piece ≠ "") :
    List.replicate (gap.breaks - 1) .lineBreak ++ unindented (cursor.run commands).2 =
      (gap.spacing commands).flatMap Spaced.tokens ++
        List.replicate ((commands.foldl Gap.after gap).breaks - 1) .lineBreak := by
  induction commands generalizing cursor gap with
  | nil => simp [Gap.spacing, unindented]
  | cons command rest ih =>
    obtain ⟨here, later⟩ := List.forall_mem_cons.mp visible
    obtain ⟨ready, placed⟩ := waits.step here
    rw [run_cons, unindented_append, ← List.append_assoc, placed, List.append_assoc,
      ih ready later, Gap.spacing, List.flatMap_append, List.append_assoc, List.foldl_cons]

end Cursor

theorem Gap.breaks_le (gap : Gap) : gap.breaks ≤ if gap.inside then 2 else 1 := Nat.min_le_left ..

theorem Gap.breaks_le_two (gap : Gap) : gap.breaks ≤ 2 := by
  have few := gap.breaks_le
  split at few <;> omega

/-- No piece has more than two breaks before it. -/
theorem Gap.breaks_le_of_mem_spacing {gap : Gap} {commands : List Command} {spaced : Spaced}
    (member : spaced ∈ gap.spacing commands) : spaced.breaks ≤ 2 := by
  induction commands generalizing gap with
  | nil => exact absurd member List.not_mem_nil
  | cons command rest ih =>
    rcases List.mem_append.mp member with here | later
    · unfold Gap.spaced at here
      split at here
      · exact absurd here List.not_mem_nil
      · rcases List.mem_cons.mp here with rfl | within
        · exact gap.breaks_le_two
        · obtain ⟨piece, -, rfl⟩ := List.mem_map.mp within
          exact Nat.le_succ 1
    · exact ih later

/-- The first piece of all has one break before it at most. -/
theorem Gap.spacing_cases (gap : Gap) (outside : gap.inside = false) (commands : List Command) :
    (gap.spacing commands = [] ∧ (commands.foldl Gap.after gap).inside = false) ∨
      ∃ first more, gap.spacing commands = first :: more ∧ first.breaks ≤ 1 := by
  induction commands generalizing gap with
  | nil => exact .inl ⟨rfl, outside⟩
  | cons command rest ih =>
    rw [Gap.spacing, Gap.spaced, List.foldl_cons]
    cases pieces : command.pieces with
    | nil =>
      have still : (gap.after command).inside = false := by rwa [Gap.after, pieces]
      exact ih _ still
    | cons first more =>
      have few := gap.breaks_le
      rw [outside] at few
      exact .inr ⟨_, _, rfl, few⟩

theorem not_prefix_of_breaks {few count : Nat} (short : few < count) (piece : String)
    (rest : List Token) :
    ¬List.replicate count .lineBreak <+:
      List.replicate few .lineBreak ++ .stretch piece :: rest := by
  induction few generalizing count with
  | zero =>
    obtain ⟨more, rfl⟩ := Nat.exists_eq_add_one_of_ne_zero (Nat.ne_zero_of_lt short)
    simp [List.replicate_succ, List.cons_prefix_cons]
  | succ few ih =>
    obtain ⟨more, rfl⟩ := Nat.exists_eq_add_one_of_ne_zero (Nat.ne_zero_of_lt short)
    rw [List.replicate_succ, List.replicate_succ, List.cons_append, List.cons_prefix_cons]
    exact fun found => ih (Nat.lt_of_succ_lt_succ short) found.2

/-- A row of breaks that is longer than the one before a piece is behind it. -/
theorem infix_of_infix_breaks {few count : Nat} (short : few < count) {piece : String}
    {rest : List Token}
    (found : List.replicate count .lineBreak <:+:
      List.replicate few .lineBreak ++ .stretch piece :: rest) :
    List.replicate count .lineBreak <:+: rest := by
  have ended := not_prefix_of_breaks short piece rest
  induction few with
  | zero =>
    rcases List.infix_cons_iff.mp found with start | later
    · exact absurd start ended
    · exact later
  | succ few ih =>
    rw [List.replicate_succ, List.cons_append] at found
    rcases List.infix_cons_iff.mp found with start | later
    · exact absurd start ended
    · have shorter : few < count := by omega
      exact ih shorter later (not_prefix_of_breaks shorter piece rest)

/-- No row of breaks is longer than those before the pieces and the one behind them. -/
theorem not_infix_of_spacing {count behind : Nat} {pieces : List Spaced}
    (few : ∀ spaced ∈ pieces, spaced.breaks < count) (short : behind < count) :
    ¬List.replicate count .lineBreak <:+:
      pieces.flatMap Spaced.tokens ++ List.replicate behind .lineBreak := by
  intro found
  induction pieces with
  | nil =>
    have long := found.length_le
    rw [List.flatMap_nil, List.nil_append, List.length_replicate, List.length_replicate] at long
    omega
  | cons spaced rest ih =>
    obtain ⟨here, later⟩ := List.forall_mem_cons.mp few
    simp only [List.flatMap_cons, Spaced.tokens, List.append_assoc, List.singleton_append] at found
    exact ih later (infix_of_infix_breaks here found)

/-- Before any piece there are never two breaks in a row. -/
theorem not_prefix_of_spacing {gap : Gap} (outside : gap.inside = false)
    (commands : List Command) :
    ¬[.lineBreak, .lineBreak] <+:
      (gap.spacing commands).flatMap Spaced.tokens ++
        List.replicate ((commands.foldl Gap.after gap).breaks - 1) .lineBreak := by
  rcases gap.spacing_cases outside commands with ⟨none, still⟩ | ⟨first, more, some, few⟩
  · have last := (commands.foldl Gap.after gap).breaks_le
    rw [still] at last
    have nothing : (commands.foldl Gap.after gap).breaks - 1 = 0 := Nat.sub_eq_zero_of_le last
    simp [none, nothing]
  · rw [some, List.flatMap_cons, Spaced.tokens]
    simp only [List.append_assoc, List.singleton_append]
    exact @not_prefix_of_breaks first.breaks 2 (by omega) _ _

namespace Cursor

/-- Layout has before each piece the breaks of its gap, and nothing but those of the last gap behind
the pieces. So it has no three breaks in a row, and does not start with two. -/
theorem pieces_spaced (unit newline : String) (commands : List Command)
    (visible : ∀ command ∈ commands, ∀ piece ∈ command.pieces, piece ≠ "") :
    let emitted := emitAll ⟨.text unit, .text newline⟩ {} commands
    emitted.result = .ok () ∧
      unindented emitted.tokens =
        (Gap.spacing {} commands).flatMap Spaced.tokens ++
          List.replicate ((commands.foldl Gap.after {}).breaks - 1) .lineBreak ∧
      ¬[.lineBreak, .lineBreak, .lineBreak] <:+: unindented emitted.tokens ∧
      ¬[.lineBreak, .lineBreak] <+: unindented emitted.tokens := by
  intro emitted
  have admitted : (run {} commands).2.all (Style.admits ⟨.text unit, .text newline⟩) = true :=
    List.all_eq_true.mpr fun token _ => Style.admits_of_text _ unit rfl token
  have whole : emitted = ⟨(run {} commands).1, (run {} commands).2, .ok ()⟩ :=
    emitAll_of_admits _ _ _ admitted
  have waits : Waits {} {} := ⟨rfl, rfl⟩
  have laid : unindented emitted.tokens =
      (Gap.spacing {} commands).flatMap Spaced.tokens ++
        List.replicate ((commands.foldl Gap.after {}).breaks - 1) .lineBreak := by
    rw [whole]
    exact waits.run visible
  refine ⟨by rw [whole], laid, ?_, ?_⟩
  · have last := (commands.foldl Gap.after {}).breaks_le_two
    rw [laid]
    exact @not_infix_of_spacing 3 _ _
      (fun spaced member => Nat.lt_succ_of_le (Gap.breaks_le_of_mem_spacing member)) (by omega)
  · rw [laid]
    exact not_prefix_of_spacing rfl commands

theorem sample_pieces_spaced :
    let commands : List Command :=
      [.line "", .line "", .write "a\r\nb", .line "c", .indent, .line "", .write "", .line "",
        .suspend, .line "", .resume, .line "d", .line ""]
    let emitted := emitAll ⟨.text "  ", .text "\n"⟩ {} commands
    unindented emitted.tokens =
        [.lineBreak, .stretch "a", .lineBreak, .stretch "b", .stretch "c", .lineBreak, .lineBreak,
          .stretch "d", .lineBreak] ∧
      ¬[.lineBreak, .lineBreak, .lineBreak] <:+: unindented emitted.tokens := by
  intro commands emitted
  have visible : ∀ command ∈ commands, ∀ piece ∈ command.pieces, piece ≠ "" := by decide +kernel
  obtain ⟨-, spaced, few, -⟩ := pieces_spaced "  " "\n" commands visible
  refine ⟨spaced.trans ?_, few⟩
  decide +kernel

end Cursor

end NodeSmith.Layout
