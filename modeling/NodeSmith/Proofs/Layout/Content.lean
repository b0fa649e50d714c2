import NodeSmith.Layout.Code
import NodeSmith.Proofs.Layout.Indents
import NodeSmith.Proofs.Text.Lines

set_option autoImplicit false

namespace NodeSmith.Layout

def Token.content : Token → List Char
  | .stretch content => content.toList
  | .lineBreak | .indentation _ => []

/-- The characters that a request asks for, without line breaks. -/
def Command.content : Command → List Char
  | .write text | .line text => text.toList.filter fun c => !Text.isBreak c
  | .indent | .dedent | .suspend | .resume => []

def Code.content (codes : List Code) : List Char := (commandsOf codes).flatMap Command.content

namespace Cursor

theorem settle_content (cursor : Cursor) : cursor.settle.2.flatMap Token.content = [] := by
  unfold settle
  split <;> rfl

theorem margin_content (cursor : Cursor) : cursor.margin.flatMap Token.content = [] := by
  unfold margin
  split <;> rfl

theorem place_content (cursor : Cursor) (content : String) :
    (cursor.place content).2.flatMap Token.content = content.toList := by
  unfold place
  dsimp only
  split
  · rename_i empty
    rw [settle_content, String.isEmpty_iff.mp empty]
    rfl
  · rw [List.flatMap_append, List.flatMap_append, settle_content, margin_content,
      List.flatMap_singleton]
    rfl

theorem placeLines_content (cursor : Cursor) (contents : List String) :
    (cursor.placeLines contents).2.flatMap Token.content = contents.flatMap String.toList := by
  induction contents generalizing cursor with
  | nil => rfl
  | cons content rest ih =>
    rw [placeLines, List.flatMap_append, place_content, ih, List.flatMap_cons]

theorem write_content (cursor : Cursor) (content : String) :
    (cursor.write content).2.flatMap Token.content =
      content.toList.filter fun c => !Text.isBreak c := by
  rw [← Text.flatMap_lines]
  unfold write
  split
  · rename_i empty
    rw [String.isEmpty_iff.mp empty]
    rfl
  · cases Text.lines content with
    | nil => rfl
    | cons first rest =>
      dsimp only
      rw [List.flatMap_append, place_content, placeLines_content, List.flatMap_cons]

theorem endLine_content (cursor : Cursor) (content : String) :
    (cursor.endLine content).2.flatMap Token.content =
      content.toList.filter fun c => !Text.isBreak c := by
  unfold endLine
  dsimp only
  split
  · rename_i empty
    rw [String.isEmpty_iff.mp empty]
    split <;> rfl
  · exact cursor.write_content content

theorem step_content (cursor : Cursor) (command : Command) :
    (cursor.step command).2.flatMap Token.content = command.content := by
  cases command with
  | write content => exact cursor.write_content content
  | line content => exact cursor.endLine_content content
  | indent | dedent | suspend | resume => rfl

theorem run_content (cursor : Cursor) (commands : List Command) :
    (cursor.run commands).2.flatMap Token.content = commands.flatMap Command.content := by
  induction commands generalizing cursor with
  | nil => rfl
  | cons command rest ih =>
    rw [run_cons, List.flatMap_append, step_content, ih, List.flatMap_cons]

/-- A line that ends with text ends in a stretch of it. -/
theorem exists_endLine_eq_append (cursor : Cursor) {content : String}
    (unbroken : Text.Unbroken content) (visible : content ≠ "") :
    ∃ margin, (cursor.endLine content).2 = margin ++ [.stretch content] := by
  have shown : content.isEmpty = false := by
    rw [String.isEmpty_eq_false_iff]
    exact visible
  refine ⟨cursor.settle.2 ++ cursor.settle.1.margin, ?_⟩
  simp only [endLine, shown, Bool.false_eq_true, ↓reduceIte, write, Text.lines_of_unbroken unbroken,
    place, placeLines, List.append_nil]

end Cursor

namespace Code

theorem content_append (first second : List Code) :
    content (first ++ second) = content first ++ content second := by
  rw [content, commandsOf_append, List.flatMap_append, content, content]

theorem content_line (text : String) :
    content [.line text] = text.toList.filter fun c => !Text.isBreak c := by
  rw [content, commandsOf_cons, commandsOf_nil, List.append_nil, commands, List.flatMap_singleton,
    Command.content]

theorem content_nested (body : List Code) : content [.nested body] = content body := by
  rw [content, commandsOf_cons, commandsOf_nil, List.append_nil, commands, List.cons_append,
    List.flatMap_cons, List.flatMap_append, content]
  exact List.append_nil _

end Code

theorem text_append (unit newline : String) (first second : List Token) :
    text unit newline (first ++ second) = text unit newline first ++ text unit newline second := by
  rw [text_eq_join, text_eq_join, text_eq_join, List.map_append, String.join_append]

/-- Code that ends in a line with text is laid out to a text that ends in it. -/
theorem Cursor.exists_run_line (cursor : Cursor) (codes : List Code) {last : String}
    (unbroken : Text.Unbroken last) (visible : last ≠ "") :
    ∃ front, (cursor.run (Code.commandsOf (codes ++ [.line last]))).2 =
        front ++ [.stretch last] ∧ front.flatMap Token.content = Code.content codes := by
  obtain ⟨margin, ends⟩ := exists_endLine_eq_append
    (cursor.run (Code.commandsOf codes)).1 unbroken visible
  have laid : (cursor.run (Code.commandsOf (codes ++ [.line last]))).2 =
      (cursor.run (Code.commandsOf codes)).2 ++ margin ++ [.stretch last] := by
    rw [Code.commandsOf_append, run_append, Code.commandsOf_cons, Code.commandsOf_nil,
      List.append_nil, Code.commands, run_cons, run_nil, List.append_nil, List.append_assoc, ← ends]
    rfl
  refine ⟨_, laid, ?_⟩
  have kept : (cursor.run _).2.flatMap Token.content = Code.content (codes ++ [.line last]) :=
    cursor.run_content _
  have whole : last.toList.filter (fun c => !Text.isBreak c) = last.toList := by
    rw [List.filter_eq_self]
    intro c member
    rw [unbroken c member]
    rfl
  rw [laid, List.flatMap_append, List.flatMap_singleton, Token.content, Code.content_append,
    Code.content_line, whole] at kept
  exact List.append_cancel_right kept

/-- Breaks and indentation without characters of a sort put none of them in. -/
theorem filter_text {sort : Char → Bool} {unit newline : String} (indents : Text.Free sort unit)
    (breaks : Text.Free sort newline) (tokens : List Token) :
    (text unit newline tokens).toList.filter sort =
      (tokens.flatMap Token.content).filter sort := by
  have margin (depth : Nat) : (multiple unit depth).toList.filter sort = [] := by
    induction depth with
    | zero => rfl
    | succ depth ih =>
      rw [multiple_succ, String.toList_append, List.filter_append, ih, Text.filter_of_free indents]
      rfl
  rw [text_eq_join]
  induction tokens with
  | nil => rfl
  | cons token rest ih =>
    rw [List.map_cons, String.join_cons, String.toList_append, List.filter_append, ih,
      List.flatMap_cons, List.filter_append]
    cases token with
    | lineBreak => rw [Token.text, Text.filter_of_free breaks, Token.content, List.filter_nil]
    | indentation depth => rw [Token.text, margin, Token.content, List.filter_nil]
    | stretch content => rfl

end NodeSmith.Layout
