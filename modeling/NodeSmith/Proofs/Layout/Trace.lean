import NodeSmith.Layout.Emission
import NodeSmith.Proofs.Layout.Content

set_option autoImplicit false

namespace NodeSmith.Layout

/-- The depth and the suspensions that are in force. -/
structure Level where
  depth : Nat := 0
  suspended : Nat := 0
  deriving DecidableEq, Repr

/-- The level after a request. Neither of its counts falls below zero. -/
def Level.after (level : Level) : Command → Level
  | .indent => { level with depth := level.depth + 1 }
  | .dedent => { level with depth := level.depth - 1 }
  | .suspend => { level with suspended := level.suspended + 1 }
  | .resume => { level with suspended := level.suspended - 1 }
  | .write _ | .line _ => level

/-- A token, with the level at the moment it was laid out. -/
structure Placed where
  token : Token
  level : Level
  deriving DecidableEq, Repr

def Level.place (level : Level) (tokens : List Token) : List Placed :=
  tokens.map fun token => ⟨token, level⟩

/-- The tokens of a run, with their levels. -/
def Cursor.trace (cursor : Cursor) (level : Level) : List Command → List Placed
  | [] => []
  | command :: rest =>
    level.place (cursor.step command).2 ++
      (cursor.step command).1.trace (level.after command) rest

/-- Whether the text that comes after these tokens is the first one after a break. -/
def StartsLine (before : List Token) : Prop :=
  ∃ earlier margin, before = earlier ++ .lineBreak :: margin ∧ ∀ content, .stretch content ∉ margin

/-- Whether a token may stand between others. -/
def Placed.Suits (before : List Token) (placed : Placed) (after : List Token) : Prop :=
  match placed.token with
  | .lineBreak => True
  | .indentation _ =>
    before.getLast? = some .lineBreak ∧ ∃ content, after.head? = some (.stretch content)
  | .stretch content =>
    content ≠ "" ∧ Text.Unbroken content ∧
      ((∃ depth, before.getLast? = some (.indentation depth)) ↔
        StartsLine before ∧ 0 < placed.level.depth ∧ placed.level.suspended = 0) ∧
      ∀ depth, before.getLast? = some (.indentation depth) → depth = placed.level.depth

def endsLine (placed : List Placed) : Bool := placed.getLast?.any fun last => last.token.isBreak

/-- Tokens in an order in which they are laid out. -/
inductive Laid : List Placed → Prop
  | nil : Laid []
  | lineBreak {done : List Placed} (level : Level) (laid : Laid done) :
    Laid (done ++ [⟨.lineBreak, level⟩])
  | flush {done : List Placed} {level : Level} {content : String} (laid : Laid done)
    (visible : content ≠ "") (unbroken : Text.Unbroken content)
    (unindented : ¬(endsLine done = true ∧ 0 < level.depth ∧ level.suspended = 0)) :
    Laid (done ++ [⟨.stretch content, level⟩])
  | indented {done : List Placed} {level : Level} {content : String} (laid : Laid done)
    (visible : content ≠ "") (unbroken : Text.Unbroken content) (starts : endsLine done = true)
    (deep : 0 < level.depth) (unsuspended : level.suspended = 0) :
    Laid (done ++ [⟨.indentation level.depth, level⟩, ⟨.stretch content, level⟩])

/-- A cursor stands behind tokens that were laid out. -/
structure Cursor.Behind (cursor : Cursor) (level : Level) (done : List Placed) : Prop where
  depth_eq : cursor.depth = level.depth
  suspended_eq : cursor.suspended = level.suspended
  atStart_eq : (!cursor.lineOpen && cursor.started) = endsLine done
  laid : Laid done

namespace Cursor

variable {cursor : Cursor} {level : Level} {done : List Placed}

theorem endsLine_snoc (placed : Placed) : endsLine (done ++ [placed]) = placed.token.isBreak := by
  rw [endsLine, List.getLast?_concat, Option.any_some]

theorem Behind.breakLine (behind : cursor.Behind level done) :
    cursor.breakLine.1.Behind level (done ++ level.place cursor.breakLine.2) :=
  ⟨behind.depth_eq, behind.suspended_eq, (endsLine_snoc ⟨.lineBreak, level⟩).symm,
    behind.laid.lineBreak level⟩

theorem Behind.due (behind : cursor.Behind level done) (due : Bool) :
    Behind { cursor with breakDue := due } level done :=
  ⟨behind.depth_eq, behind.suspended_eq, behind.atStart_eq, behind.laid⟩

theorem Behind.nothing (behind : cursor.Behind level done) :
    cursor.Behind level (done ++ level.place []) := by
  rw [Level.place, List.map_nil, List.append_nil]
  exact behind

theorem Behind.settle (behind : cursor.Behind level done) :
    cursor.settle.1.Behind level (done ++ level.place cursor.settle.2) := by
  unfold Cursor.settle
  split
  · exact (behind.due false).breakLine
  · exact behind.nothing

theorem Behind.margin_eq (behind : cursor.Behind level done) : cursor.margin =
    if endsLine done = true ∧ 0 < level.depth ∧ level.suspended = 0 then [.indentation level.depth]
    else [] := by
  have deep : (level.depth != 0) = decide (0 < level.depth) := by
    rw [Bool.eq_iff_iff, bne_iff_ne, decide_eq_true_iff, Nat.pos_iff_ne_zero]
  simp only [margin, behind.atStart_eq, behind.depth_eq, behind.suspended_eq, deep,
    Bool.and_eq_true, beq_iff_eq, decide_eq_true_iff, and_assoc,
    and_comm (a := level.suspended = 0)]

/-- Text is laid out with indentation exactly where a line begins that has one. -/
theorem Behind.stretch (behind : cursor.Behind level done) {content : String}
    (visible : content ≠ "") (unbroken : Text.Unbroken content) :
    Behind { cursor with lineOpen := true, started := true } level
      (done ++ level.place (cursor.margin ++ [.stretch content])) := by
  rw [behind.margin_eq]
  by_cases indents : endsLine done = true ∧ 0 < level.depth ∧ level.suspended = 0
  · rw [if_pos indents]
    obtain ⟨starts, deep, unsuspended⟩ := indents
    refine ⟨behind.depth_eq, behind.suspended_eq, ?_,
      .indented behind.laid visible unbroken starts deep unsuspended⟩
    have last := @endsLine_snoc (done ++ [⟨.indentation level.depth, level⟩])
      ⟨.stretch content, level⟩
    rw [List.append_assoc] at last
    exact last.symm
  · rw [if_neg indents]
    exact ⟨behind.depth_eq, behind.suspended_eq, (endsLine_snoc ⟨.stretch content, level⟩).symm,
      .flush behind.laid visible unbroken indents⟩

theorem Behind.append {first second : List Token}
    (behind : cursor.Behind level (done ++ level.place first ++ level.place second)) :
    cursor.Behind level (done ++ level.place (first ++ second)) := by
  rwa [Level.place, List.map_append, ← List.append_assoc]

theorem Behind.place (behind : cursor.Behind level done) {content : String}
    (unbroken : Text.Unbroken content) :
    (cursor.place content).1.Behind level (done ++ level.place (cursor.place content).2) := by
  unfold Cursor.place
  dsimp only
  split
  · exact behind.settle
  · rename_i visible
    rw [List.append_assoc]
    rw [String.isEmpty_iff] at visible
    exact (behind.settle.stretch visible unbroken).append

theorem Behind.placeLines (behind : cursor.Behind level done) {contents : List String}
    (unbroken : ∀ content ∈ contents, Text.Unbroken content) :
    (cursor.placeLines contents).1.Behind level
      (done ++ level.place (cursor.placeLines contents).2) := by
  induction contents generalizing cursor done with
  | nil => exact behind.nothing
  | cons content rest ih =>
    have here := (behind.due true).place (unbroken content List.mem_cons_self)
    exact (ih here fun other member => unbroken other (List.mem_cons_of_mem _ member)).append

theorem Behind.write (behind : cursor.Behind level done) (content : String) :
    (cursor.write content).1.Behind level (done ++ level.place (cursor.write content).2) := by
  have unbroken : ∀ line ∈ Text.lines content, Text.Unbroken line :=
    fun line => Text.unbroken_of_mem_lines
  unfold Cursor.write
  split
  · exact behind.nothing
  · cases split : Text.lines content with
    | nil => exact behind.nothing
    | cons first rest =>
      rw [split] at unbroken
      have here := behind.place (unbroken first List.mem_cons_self)
      exact (here.placeLines fun line member =>
        unbroken line (List.mem_cons_of_mem _ member)).append

theorem Behind.endLine (behind : cursor.Behind level done) (content : String) :
    (cursor.endLine content).1.Behind level (done ++ level.place (cursor.endLine content).2) := by
  unfold Cursor.endLine
  dsimp only
  split
  · split
    · exact behind.breakLine.due true
    · exact behind.nothing.due true
  · exact (behind.write content).due true

/-- A request keeps the cursor behind what was laid out. -/
theorem Behind.step (behind : cursor.Behind level done) (command : Command) :
    (cursor.step command).1.Behind (level.after command)
      (done ++ level.place (cursor.step command).2) := by
  have deep := behind.depth_eq
  have suspended := behind.suspended_eq
  cases command with
  | write content => exact behind.write content
  | line content => exact behind.endLine content
  | indent | dedent | suspend | resume =>
    refine ⟨?_, ?_, ?_, ?_⟩ <;>
      simp only [Cursor.step, Level.after, Level.place, List.map_nil, List.append_nil, deep,
        suspended, behind.atStart_eq, behind.laid]

theorem Behind.run (behind : cursor.Behind level done) (commands : List Command) :
    (cursor.run commands).1.Behind (commands.foldl Level.after level)
      (done ++ cursor.trace level commands) := by
  induction commands generalizing cursor level done with
  | nil =>
    rw [trace, List.append_nil]
    exact behind
  | cons command rest ih =>
    rw [trace, ← List.append_assoc]
    exact ih (behind.step command)

theorem trace_tokens (cursor : Cursor) (level : Level) (commands : List Command) :
    (cursor.trace level commands).map Placed.token = (cursor.run commands).2 := by
  induction commands generalizing cursor level with
  | nil => rfl
  | cons command rest ih =>
    rw [trace, List.map_append, ih, run_cons, Level.place, List.map_map]
    congr 1
    exact List.map_id _

end Cursor

theorem not_startsLine_nil : ¬StartsLine [] := by
  rintro ⟨earlier, margin, split, -⟩
  cases earlier <;> cases split

theorem startsLine_lineBreak (before : List Token) : StartsLine (before ++ [.lineBreak]) :=
  ⟨before, [], rfl, fun _ => List.not_mem_nil⟩

theorem StartsLine.indentation {before : List Token} (starts : StartsLine before) (depth : Nat) :
    StartsLine (before ++ [.indentation depth]) := by
  obtain ⟨earlier, margin, rfl, free⟩ := starts
  refine ⟨earlier, margin ++ [.indentation depth], by simp only [List.append_assoc,
    List.cons_append], ?_⟩
  intro content member
  rcases List.mem_append.mp member with inside | last
  · exact free content inside
  · cases List.mem_singleton.mp last

theorem not_startsLine_stretch (before : List Token) (content : String) :
    ¬StartsLine (before ++ [.stretch content]) := by
  rintro ⟨earlier, margin, split, free⟩
  rcases List.eq_nil_or_concat margin with rfl | ⟨front, last, rfl⟩
  · cases (List.append_inj' split rfl).2
  · rw [List.concat_eq_append, ← List.cons_append, ← List.append_assoc] at split
    cases (List.append_inj' split rfl).2
    exact free content (by simp only [List.concat_eq_append, List.mem_append, List.mem_singleton,
      or_true])

/-- Layout stops behind a break or behind text. -/
theorem Laid.last {done : List Placed} (laid : Laid done) :
    done = [] ∨ ∃ front last, done = front ++ [last] ∧
      (last.token = .lineBreak ∨ ∃ content, last.token = .stretch content) := by
  cases laid with
  | nil => exact .inl rfl
  | lineBreak level laid => exact .inr ⟨_, _, rfl, .inl rfl⟩
  | flush laid visible unbroken unindented => exact .inr ⟨_, _, rfl, .inr ⟨_, rfl⟩⟩
  | indented laid visible unbroken starts deep unsuspended =>
    exact .inr ⟨_, _, List.append_cons .., .inr ⟨_, rfl⟩⟩

theorem Laid.last_ne_indentation {done : List Placed} (laid : Laid done) (depth : Nat) :
    (done.map Placed.token).getLast? ≠ some (.indentation depth) := by
  rcases laid.last with rfl | ⟨front, last, rfl, found⟩
  · exact Option.some_ne_none _ ∘ Eq.symm
  · rw [List.map_append, List.map_singleton, List.getLast?_concat, ne_eq, Option.some_inj]
    rcases found with found | ⟨content, found⟩ <;> rw [found] <;> exact Token.noConfusion

/-- Where layout stopped at the first text of a line, it stopped behind the break. -/
theorem Laid.endsLine_of_startsLine {done : List Placed} (laid : Laid done)
    (starts : StartsLine (done.map Placed.token)) : endsLine done = true := by
  rcases laid.last with rfl | ⟨front, last, rfl, found | ⟨content, found⟩⟩
  · exact absurd starts not_startsLine_nil
  · rw [Cursor.endsLine_snoc, found]
    rfl
  · rw [List.map_append, List.map_singleton, found] at starts
    exact absurd starts (not_startsLine_stretch _ content)

theorem getLast?_of_endsLine {done : List Placed} (ends : endsLine done = true) :
    (done.map Placed.token).getLast? = some .lineBreak := by
  rw [endsLine, Option.any_eq_true] at ends
  obtain ⟨last, found, broken⟩ := ends
  rw [List.getLast?_map, found, Option.map_some]
  cases token : last.token with
  | lineBreak => rfl
  | indentation depth => rw [token] at broken; cases broken
  | stretch content => rw [token] at broken; cases broken

theorem startsLine_of_endsLine {done : List Placed} (ends : endsLine done = true) :
    StartsLine (done.map Placed.token) := by
  obtain ⟨before, split⟩ := List.getLast?_eq_some_iff.mp (getLast?_of_endsLine ends)
  rw [split]
  exact startsLine_lineBreak before

def AllSuit (before : List Token) : List Placed → Prop
  | [] => True
  | placed :: rest =>
    placed.Suits before (rest.map Placed.token) ∧ AllSuit (before ++ [placed.token]) rest

theorem Placed.Suits.append {placed : Placed} {before after : List Token}
    (suits : placed.Suits before after) (more : List Token) :
    placed.Suits before (after ++ more) := by
  unfold Placed.Suits at suits ⊢
  split
  · trivial
  · rename_i depth found
    rw [found] at suits
    obtain ⟨ends, content, starts⟩ := suits
    refine ⟨ends, content, ?_⟩
    rw [List.head?_append, starts, Option.some_or]
  · rename_i content found
    rw [found] at suits
    exact suits

theorem AllSuit.append {before : List Token} {first second : List Placed}
    (here : AllSuit before first) (there : AllSuit (before ++ first.map Placed.token) second) :
    AllSuit before (first ++ second) := by
  induction first generalizing before with
  | nil =>
    rw [List.map_nil, List.append_nil] at there
    exact there
  | cons placed rest ih =>
    obtain ⟨suits, others⟩ := here
    rw [List.map_cons, List.append_cons] at there
    refine ⟨?_, ih others there⟩
    rw [List.append_eq, List.map_append]
    exact suits.append _

theorem AllSuit.suits {before : List Token} {first after : List Placed} {placed : Placed}
    (all : AllSuit before (first ++ placed :: after)) :
    placed.Suits (before ++ first.map Placed.token) (after.map Placed.token) := by
  induction first generalizing before with
  | nil =>
    rw [List.map_nil, List.append_nil]
    exact all.1
  | cons other rest ih =>
    rw [List.map_cons, List.append_cons]
    exact ih all.2

/-- Tokens that were laid out suit one another. -/
theorem Laid.allSuit {done : List Placed} (laid : Laid done) : AllSuit [] done := by
  induction laid with
  | nil => trivial
  | lineBreak level laid ih => exact ih.append ⟨trivial, trivial⟩
  | @flush done level content laid visible unbroken unindented ih =>
    -- Nothing that is done ends in indentation, so the text has none before it.
    refine ih.append ⟨⟨visible, unbroken, ?_, fun depth last => ?_⟩, trivial⟩
    · rw [List.nil_append]
      constructor
      · rintro ⟨depth, last⟩
        exact absurd last (laid.last_ne_indentation depth)
      · rintro ⟨starts, deep, unsuspended⟩
        exact absurd ⟨laid.endsLine_of_startsLine starts, deep, unsuspended⟩ unindented
    · exact absurd last (laid.last_ne_indentation depth)
  | @indented done level content laid visible unbroken starts deep unsuspended ih =>
    have line := startsLine_of_endsLine starts
    refine ih.append ⟨⟨getLast?_of_endsLine starts, content, rfl⟩, ⟨visible, unbroken, ?_, ?_⟩,
      trivial⟩
    · rw [List.nil_append, List.getLast?_concat]
      exact ⟨fun _ => ⟨line.indentation _, deep, unsuspended⟩, fun _ => ⟨_, rfl⟩⟩
    · intro depth last
      rw [List.nil_append, List.getLast?_concat, Option.some_inj] at last
      cases last
      rfl

namespace Cursor

theorem behind_nil : Behind {} {} [] := ⟨rfl, rfl, rfl, .nil⟩

/-- The text of a run is that of its breaks, its indentation and its stretches. Which these are is
the same in every style of texts. Their content is that of the requests, and each of them stands
where it may. -/
theorem run_laid_out (commands : List Command) :
    (∀ unit newline : String,
      emitAll ⟨.text unit, .text newline⟩ {} commands =
          ⟨(run {} commands).1, (trace {} {} commands).map Placed.token, .ok ()⟩ ∧
        Style.text ⟨.text unit, .text newline⟩ ((trace {} {} commands).map Placed.token) =
          .ok (String.join ((trace {} {} commands).map fun placed =>
            placed.token.text unit newline))) ∧
      (trace {} {} commands).flatMap (fun placed => placed.token.content) =
        commands.flatMap Command.content ∧
      ∀ before placed after, trace {} {} commands = before ++ placed :: after →
        placed.Suits (before.map Placed.token) (after.map Placed.token) := by
  refine ⟨fun unit newline => ⟨?_, ?_⟩, ?_, ?_⟩
  · have admitted : (run {} commands).2.all
        (Style.admits ⟨.text unit, .text newline⟩) = true :=
      List.all_eq_true.mpr fun token _ => Style.admits_of_text _ unit rfl token
    rw [trace_tokens, emitAll_of_admits _ _ _ admitted]
  · rw [Style.text_of_text rfl rfl, text_eq_join, List.map_map]
    rfl
  · rw [← run_content {} commands, ← trace_tokens {} {} commands, List.flatMap_map]
  · intro before placed after split
    have laid := (behind_nil.run commands).laid
    rw [List.nil_append] at laid
    have all := laid.allSuit
    rw [split] at all
    exact all.suits

theorem run_sample_laid_out :
    let commands : List Command := [.write "a\r\n", .indent, .indent, .line "b", .suspend]
    let level : Level := ⟨2, 0⟩
    trace {} {} commands = [⟨.stretch "a", {}⟩, ⟨.lineBreak, {}⟩] ++
        ⟨.indentation 2, level⟩ :: [⟨.stretch "b", level⟩] ∧
      Placed.Suits [.stretch "a", .lineBreak] ⟨.indentation 2, level⟩ [.stretch "b"] ∧
      Style.text ⟨.text "  ", .text "\n"⟩ [.stretch "a", .lineBreak, .indentation 2, .stretch "b"] =
        .ok "a\n    b" := by
  have traced : trace {} {} [.write "a\r\n", .indent, .indent, .line "b", .suspend] =
      [⟨.stretch "a", {}⟩, ⟨.lineBreak, {}⟩] ++
        ⟨.indentation 2, ⟨2, 0⟩⟩ :: [⟨.stretch "b", ⟨2, 0⟩⟩] := by decide +kernel
  obtain ⟨written, -, suits⟩ :=
    run_laid_out [.write "a\r\n", .indent, .indent, .line "b", .suspend]
  refine ⟨traced, suits _ _ _ traced, ?_⟩
  have made := (written "  " "\n").2
  rw [traced] at made
  exact made
end Cursor

end NodeSmith.Layout
