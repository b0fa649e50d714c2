import NodeSmith.Proofs.Layout.Emission
import NodeSmith.Proofs.Layout.Indents
import NodeSmith.Proofs.Text.Lines

set_option autoImplicit false

namespace NodeSmith.Layout

/-- The second sequence of tokens is the first one, but that a stretch may be cut in two. -/
inductive Cuts : List Token → List Token → Prop
  | none (tokens : List Token) : Cuts tokens tokens
  | one (front back : List Token) (first second : String) :
    Cuts (front ++ .stretch (first ++ second) :: back)
      (front ++ .stretch first :: .stretch second :: back)

namespace Cuts

variable {whole parts : List Token}

theorem within (cuts : Cuts whole parts) (front back : List Token) :
    Cuts (front ++ whole ++ back) (front ++ parts ++ back) := by
  cases cuts with
  | none => exact .none _
  | one before after first second =>
    have cut := Cuts.one (front ++ before) (after ++ back) first second
    simpa only [List.append_assoc, List.cons_append] using cut

/-- What every stretch has the one sequence has as a whole if the other has. -/
theorem all_eq (sort : Token → Bool) (stretches : ∀ content, sort (.stretch content) = true)
    (cuts : Cuts whole parts) : whole.all sort = parts.all sort := by
  cases cuts with
  | none => rfl
  | one => simp only [List.all_append, List.all_cons, stretches, Bool.true_and]

theorem any_eq (sort : Token → Bool) (stretches : ∀ content, sort (.stretch content) = false)
    (cuts : Cuts whole parts) : whole.any sort = parts.any sort := by
  cases cuts with
  | none => rfl
  | one => simp only [List.any_append, List.any_cons, stretches, Bool.false_or]

theorem takeWhile (sort : Token → Bool) (stretches : ∀ content, sort (.stretch content) = true)
    (cuts : Cuts whole parts) : Cuts (whole.takeWhile sort) (parts.takeWhile sort) := by
  cases cuts with
  | none => exact .none _
  | one front back first second =>
    rw [List.takeWhile_append, List.takeWhile_append]
    split
    · simp only [List.takeWhile_cons, stretches, ↓reduceIte]
      exact .one front _ first second
    · exact .none _

theorem text_eq (cuts : Cuts whole parts) (style : Style) :
    style.text whole = style.text parts := by
  have joined (unit newline : String) : text unit newline whole = text unit newline parts := by
    rw [text_eq_join, text_eq_join]
    cases cuts with
    | none => rfl
    | one => simp only [List.map_append, List.map_cons, String.join_append, String.join_cons,
        Token.text, String.append_assoc]
  rw [Style.text, Style.text, cuts.any_eq Token.isBreak fun _ => rfl,
    cuts.any_eq Token.isIndentation fun _ => rfl]
  simp only [joined]

end Cuts

namespace Cursor

theorem settle_breakDue (cursor : Cursor) : cursor.settle.1.breakDue = false := by
  unfold settle
  split
  · rfl
  · rename_i due
    exact eq_false_of_ne_true due

/-- Where no break is due text is laid out behind the margin of its line, if it begins one. -/
theorem place_of_not_due {cursor : Cursor} (done : cursor.breakDue = false) (content : String) :
    cursor.place content =
      if content = "" then (cursor, [])
      else ({ cursor with lineOpen := true, started := true },
        cursor.margin ++ [.stretch content]) := by
  have settled : cursor.settle = (cursor, []) := by
    rw [settle, done]
    rfl
  simp only [place, settled, String.isEmpty_iff, List.nil_append]

/-- A due break is made before anything else. -/
theorem place_eq_settle (cursor : Cursor) (content : String) :
    cursor.place content =
      ((cursor.settle.1.place content).1,
        cursor.settle.2 ++ (cursor.settle.1.place content).2) := by
  rw [place_of_not_due cursor.settle_breakDue]
  by_cases empty : content = ""
  · simp [place, empty]
  · simp [place, empty]

theorem place_breakDue (cursor : Cursor) (content : String) :
    (cursor.place content).1.breakDue = false := by
  have settled := cursor.settle_breakDue
  rw [place_eq_settle, place_of_not_due settled]
  split <;> exact settled

theorem margin_of_open {cursor : Cursor} (opened : cursor.lineOpen = true) :
    cursor.margin = [] := by
  simp [margin, opened]

/-- Text goes on where other text has ended, on the same line. -/
theorem place_append_of_not_due {cursor : Cursor} (done : cursor.breakDue = false)
    (first second : String) :
    (cursor.place (first ++ second)).1 = ((cursor.place first).1.place second).1 ∧
      Cuts (cursor.place (first ++ second)).2
        ((cursor.place first).2 ++ ((cursor.place first).1.place second).2) := by
  by_cases none : first = ""
  · simp [none, place_of_not_due done, Cuts.none]
  · have begun := place_of_not_due done first
    rw [if_neg none] at begun
    by_cases last : second = ""
    · simp [last, begun, place_of_not_due, done, Cuts.none]
    · have whole := place_of_not_due done (first ++ second)
      rw [if_neg (by simp [none])] at whole
      have went := @place_of_not_due { cursor with lineOpen := true, started := true } done second
      rw [if_neg last, margin_of_open rfl] at went
      rw [whole, begun, went]
      refine ⟨rfl, ?_⟩
      have cut := Cuts.one cursor.margin [] first second
      simpa using cut

theorem place_append (cursor : Cursor) (first second : String) :
    (cursor.place (first ++ second)).1 = ((cursor.place first).1.place second).1 ∧
      Cuts (cursor.place (first ++ second)).2
        ((cursor.place first).2 ++ ((cursor.place first).1.place second).2) := by
  obtain ⟨ends, cuts⟩ := place_append_of_not_due cursor.settle_breakDue first second
  rw [place_eq_settle cursor (first ++ second), place_eq_settle cursor first]
  refine ⟨ends, ?_⟩
  simpa using cuts.within cursor.settle.2 []

/-- The place where a line is laid out that comes after others. -/
def reach (cursor : Cursor) : List String → Cursor × List Token
  | [] => (cursor, [])
  | content :: rest =>
    let (here, placed) := cursor.place content
    let (ready, more) := reach { here with breakDue := true } rest
    (ready, placed ++ more)

theorem placeLines_eq_reach (cursor : Cursor) (before : List String) (line : String)
    (after : List String) :
    cursor.placeLines (before ++ line :: after) =
      let ready := reach { cursor with breakDue := true } before
      let here := ready.1.place line
      ((here.1.placeLines after).1, ready.2 ++ here.2 ++ (here.1.placeLines after).2) := by
  induction before generalizing cursor with
  | nil => rfl
  | cons content rest ih =>
    simp only [List.cons_append, placeLines, ih, reach, List.append_assoc]

/-- Any line of a text can be looked at on its own. -/
theorem write_eq_reach (cursor : Cursor) {content line : String} (before : List String)
    {after : List String} (given : content ≠ "")
    (split : Text.lines content = before ++ line :: after) :
    cursor.write content =
      let ready := cursor.reach before
      let here := ready.1.place line
      ((here.1.placeLines after).1, ready.2 ++ here.2 ++ (here.1.placeLines after).2) := by
  have shown : content.isEmpty = false := String.isEmpty_eq_false_iff.mpr given
  cases before with
  | nil => simp [write, shown, split, reach]
  | cons first rest =>
    simp only [write, shown, split, List.cons_append, placeLines_eq_reach, reach,
      List.append_assoc, Bool.false_eq_true, ↓reduceIte]

/-- Writing in parts. -/
theorem write_append (cursor : Cursor) {first second : String}
    (untorn : Text.Untorn first.toList second.toList) :
    (cursor.write (first ++ second)).1 = ((cursor.write first).1.write second).1 ∧
      Cuts (cursor.write (first ++ second)).2
        ((cursor.write first).2 ++ ((cursor.write first).1.write second).2) := by
  have nothing (cursor : Cursor) : cursor.write "" = (cursor, []) := rfl
  by_cases none : first = ""
  · simp [none, nothing, Cuts.none]
  · by_cases last : second = ""
    · simp [last, nothing, Cuts.none]
    · obtain ⟨before, ended, begun, after, here, there, both⟩ := Text.exists_lines_append untorn
      obtain ⟨ends, cuts⟩ := place_append (cursor.reach before).1 ended begun
      rw [write_eq_reach cursor before (by simp [none]) both,
        write_eq_reach cursor before none here, write_eq_reach _ [] last there]
      simp only [placeLines, reach, ends, true_and, List.append_nil, List.nil_append]
      have cut := cuts.within (cursor.reach before).2
        (((((cursor.reach before).1.place ended).1.place begun).1).placeLines after).2
      simpa only [List.append_assoc] using cut

theorem place_atMargin (cursor : Cursor) (content : String) :
    (cursor.place content).1.atMargin = cursor.atMargin := by
  unfold place settle
  dsimp only
  split <;> split <;> rfl

theorem placeLines_atMargin (cursor : Cursor) (contents : List String) :
    (cursor.placeLines contents).1.atMargin = cursor.atMargin := by
  induction contents generalizing cursor with
  | nil => rfl
  | cons content rest ih =>
    rw [placeLines]
    exact (ih _).trans (place_atMargin { cursor with breakDue := true } content)

theorem write_atMargin (cursor : Cursor) (content : String) :
    (cursor.write content).1.atMargin = cursor.atMargin := by
  unfold write
  split
  · rfl
  · cases Text.lines content with
    | nil => rfl
    | cons first rest => exact (placeLines_atMargin _ rest).trans (place_atMargin cursor first)

theorem placeLines_breakDue {cursor : Cursor} (done : cursor.breakDue = false)
    (contents : List String) : (cursor.placeLines contents).1.breakDue = false := by
  induction contents generalizing cursor with
  | nil => exact done
  | cons content rest ih => exact ih (place_breakDue { cursor with breakDue := true } content)

theorem write_breakDue (cursor : Cursor) {content : String} (given : content ≠ "") :
    (cursor.write content).1.breakDue = false := by
  obtain ⟨first, rest, split⟩ := List.exists_cons_of_ne_nil (Text.lines_ne_nil content)
  rw [write_eq_reach cursor [] given split]
  exact placeLines_breakDue (place_breakDue _ first) rest

end Cursor

/-- Nothing tells two emissions apart: they leave the cursor in one state, they end alike, and in
whatever they stand they read the same. -/
structure Emission.Alike (style : Style) (first second : Emission) : Prop where
  cursor : first.cursor = second.cursor
  result : first.result = second.result
  text : ∀ before after, style.text (before ++ first.tokens ++ after) =
    style.text (before ++ second.tokens ++ after)

namespace Emission

variable {style : Style} {first second : Emission}

theorem Alike.refl (style : Style) (emission : Emission) : emission.Alike style emission :=
  ⟨rfl, rfl, fun _ _ => rfl⟩

theorem alike_of_cuts (cursor : first.cursor = second.cursor)
    (result : first.result = second.result) (cuts : Cuts first.tokens second.tokens) :
    first.Alike style second :=
  ⟨cursor, result, fun before after => (cuts.within before after).text_eq style⟩

theorem Alike.andThen (alike : first.Alike style second) (next : Cursor → Emission) :
    (first.andThen next).Alike style (second.andThen next) := by
  obtain ⟨cursor, result, text⟩ := alike
  cases ended : second.result with
  | error fault =>
    rw [andThen_of_error first next (result.trans ended), andThen_of_error second next ended]
    exact ⟨cursor, result, text⟩
  | ok =>
    rw [andThen_of_ok first next (result.trans ended), andThen_of_ok second next ended, cursor]
    refine ⟨rfl, rfl, fun before after => ?_⟩
    simpa only [List.append_assoc] using text before ((next second.cursor).tokens ++ after)

end Emission

namespace Cursor

/-- What is not all taken is taken no further when more comes after it. -/
theorem takeWhile_append_of_not_all {sort : Token → Bool} {front : List Token}
    (refused : ¬front.all sort = true) (back : List Token) :
    (front ++ back).takeWhile sort = front.takeWhile sort := by
  induction front with
  | nil => exact absurd rfl refused
  | cons token rest ih =>
    by_cases taken : sort token = true
    · rw [List.all_cons, taken, Bool.true_and] at refused
      simp only [List.cons_append, List.takeWhile_cons, taken, ↓reduceIte, ih refused]
    · simp only [List.cons_append, List.takeWhile_cons, taken, Bool.false_eq_true, ↓reduceIte]

/-- Two requests of which the first keeps the depth go as far as one that asks for as much as
both. -/
theorem emit_andThen_emit (style : Style) {cursor : Cursor} {first second : Command}
    (level : (cursor.step first).1.atMargin = cursor.atMargin) :
    (cursor.emit style first).andThen (fun here => here.emit style second) =
      let last := (cursor.step first).1.step second
      let placed := (cursor.step first).2 ++ last.2
      if placed.all style.admits then ⟨last.1, placed, .ok ()⟩
      else ⟨cursor.atMargin, placed.takeWhile style.admits, .error .notText⟩ := by
  by_cases front : (cursor.step first).2.all style.admits = true
  · rw [emit_of_admits style cursor first front, Emission.andThen_of_ok _ _ rfl]
    have taken := @List.takeWhile_append_of_pos _ style.admits _
      ((cursor.step first).1.step second).2 (List.all_eq_true.mp front)
    simp only [emit, List.all_append, front, Bool.true_and, taken, level]
    split <;> rfl
  · have refused : cursor.emit style first =
        ⟨cursor.atMargin, (cursor.step first).2.takeWhile style.admits, .error .notText⟩ := by
      simp only [emit, front, Bool.false_eq_true, ↓reduceIte]
    rw [refused, Emission.andThen_of_error _ _ rfl]
    simp only [List.all_append, eq_false_of_ne_true front, Bool.false_and, Bool.false_eq_true,
      ↓reduceIte, takeWhile_append_of_not_all front]

/-- Writing in parts goes as far as writing the whole, in every style. -/
theorem emit_write_append (style : Style) (cursor : Cursor) {first second : String}
    (untorn : Text.Untorn first.toList second.toList) :
    (cursor.emit style (.write (first ++ second))).Alike style
      ((cursor.emit style (.write first)).andThen fun here => here.emit style (.write second)) := by
  obtain ⟨ends, cuts⟩ : (cursor.step (.write (first ++ second))).1 =
      ((cursor.step (.write first)).1.step (.write second)).1 ∧
    Cuts (cursor.step (.write (first ++ second))).2
      ((cursor.step (.write first)).2 ++
        ((cursor.step (.write first)).1.step (.write second)).2) := cursor.write_append untorn
  rw [@emit_andThen_emit style cursor (.write first) _ (cursor.write_atMargin first)]
  simp only [emit, cuts.all_eq style.admits fun _ => rfl]
  split
  · exact Emission.alike_of_cuts ends rfl cuts
  · exact Emission.alike_of_cuts rfl rfl (cuts.takeWhile style.admits fun _ => rfl)

theorem step_line (cursor : Cursor) {content : String} (given : content ≠ "") :
    cursor.step (.line content) =
      ({ (cursor.step (.write content)).1 with breakDue := true },
        (cursor.step (.write content)).2) := by
  have shown : content.isEmpty = false := String.isEmpty_eq_false_iff.mpr given
  simp only [step, endLine, shown, Bool.false_eq_true, ↓reduceIte]

theorem emit_line (style : Style) (cursor : Cursor) {content : String} (given : content ≠ "") :
    cursor.emit style (.line content) =
      (cursor.emit style (.write content)).andThen fun here => here.emit style (.line "") := by
  have whole := cursor.step_line given
  have closing : (cursor.step (.write content)).1.step (.line "") =
      ({ (cursor.step (.write content)).1 with breakDue := true }, []) := by
    simp [step, endLine, cursor.write_breakDue given]
  rw [@emit_andThen_emit style cursor (.write content) _ (cursor.write_atMargin content)]
  simp only [emit, whole, closing, List.append_nil]

/-- However a text is cut, but not within a break, writing its parts comes to what writing it as a
whole comes to; and ending a line with text comes to what the text and then the end of the line come
to. This is so from wherever the cursor is, whatever was laid out before, and whatever is asked for
afterwards. -/
theorem writes_compose (style : Style) (cursor : Cursor) (further : List Command) :
    (∀ first second : String,
      ¬(first.toList.getLast? = some '\r' ∧ second.toList.head? = some '\n') →
      (cursor.emitAll style (.write (first ++ second) :: further)).Alike style
        (cursor.emitAll style (.write first :: .write second :: further))) ∧
    ∀ content : String, content ≠ "" →
      (cursor.emitAll style (.line content :: further)).Alike style
        (cursor.emitAll style (.write content :: .line "" :: further)) := by
  constructor
  · intro first second untorn
    simp only [emitAll, ← Emission.andThen_assoc]
    exact (cursor.emit_write_append style untorn).andThen _
  · intro content given
    simp only [emitAll, ← Emission.andThen_assoc]
    rw [cursor.emit_line style given]
    exact .refl style _

-- A break that is cut is two breaks.
example : (({} : Cursor).run [.write "\r\n"]).2 = [.lineBreak] ∧
    (({} : Cursor).run [.write "\r", .write "\n"]).2 = [.lineBreak, .lineBreak] := by decide

theorem sample_writes_compose :
    let style : Style := { unit := .text "  ", newline := .text "\r\n" }
    let begun : Cursor := { depth := 1, breakDue := true, lineOpen := true, started := true }
    let whole := begun.emitAll style [.write "a\nb", .indent, .line "c\n"]
    let parts := begun.emitAll style [.write "a\n", .write "b", .indent, .line "c\n"]
    whole.cursor = parts.cursor ∧ style.text whole.tokens = style.text parts.tokens ∧
      (begun.emitAll style [.line "c\n", .write "d"]).Alike style
        (begun.emitAll style [.write "c\n", .line "", .write "d"]) := by
  intro style begun whole parts
  have written := (writes_compose style begun [.indent, .line "c\n"]).1 "a\n" "b" (by decide)
  have read := written.text [] []
  simp only [List.nil_append, List.append_nil] at read
  exact ⟨written.cursor, read, (writes_compose style begun [.write "d"]).2 "c\n" (by decide)⟩

end Cursor

end NodeSmith.Layout
