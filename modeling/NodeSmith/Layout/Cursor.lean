import NodeSmith.Layout.Token
import NodeSmith.Text.Break

set_option autoImplicit false

namespace NodeSmith.Layout

/-- What the layout of the next text depends on. A line break is only requested, and is made when the
next text arrives: the indentation of a line is that in force when the line starts, and breaks that
nothing follows leave no trace. -/
structure Cursor where
  /-- How many units a new line is indented by. -/
  depth : Nat := 0
  /-- How many suspensions of indenting are in force. -/
  suspended : Nat := 0
  /-- Whether a line break is requested. -/
  breakDue : Bool := false
  /-- Whether the line at the cursor has text. -/
  lineOpen : Bool := false
  /-- Whether anything was laid out before. -/
  started : Bool := false
  deriving DecidableEq, Repr

/-- One request to lay out. An empty text counts as none. -/
inductive Command
  | write (text : String)
  /-- Text, if there is any, and the end of its line. Without text it makes the due break now, so
  that a blank line comes before the next. -/
  | line (text : String)
  | indent
  | dedent
  | suspend
  | resume
  deriving DecidableEq, Repr

namespace Cursor

def breakLine (cursor : Cursor) : Cursor × List Token :=
  ({ cursor with lineOpen := false, started := true }, [.lineBreak])

def settle (cursor : Cursor) : Cursor × List Token :=
  if cursor.breakDue then breakLine { cursor with breakDue := false } else (cursor, [])

/-- The indentation at the start of a line. The first line of a text has none. -/
def margin (cursor : Cursor) : List Token :=
  if !cursor.lineOpen && cursor.started && cursor.suspended == 0 && cursor.depth != 0 then
    [.indentation cursor.depth]
  else []

def place (cursor : Cursor) (content : String) : Cursor × List Token :=
  let (settled, broken) := cursor.settle
  if content.isEmpty then (settled, broken)
  else
    ({ settled with lineOpen := true, started := true },
      broken ++ settled.margin ++ [.stretch content])

def placeLines (cursor : Cursor) : List String → Cursor × List Token
  | [] => (cursor, [])
  | content :: rest =>
    let (here, placed) := place { cursor with breakDue := true } content
    let (last, more) := placeLines here rest
    (last, placed ++ more)

/-- Lays out text, with a new line for every line break in it. -/
def write (cursor : Cursor) (content : String) : Cursor × List Token :=
  if content.isEmpty then (cursor, [])
  else
    match Text.lines content with
    | [] => (cursor, [])
    | first :: rest =>
      let (here, placed) := cursor.place first
      let (last, more) := here.placeLines rest
      (last, placed ++ more)

/-- Lays out text, if there is any, and requests a line break after it. Without text a due break
is made at once, unless the line at the cursor is already empty. -/
def endLine (cursor : Cursor) (content : String) : Cursor × List Token :=
  let (here, placed) :=
    if content.isEmpty then
      if cursor.breakDue && cursor.lineOpen then cursor.breakLine else (cursor, [])
    else cursor.write content
  ({ here with breakDue := true }, placed)

def step (cursor : Cursor) : Command → Cursor × List Token
  | .write content => cursor.write content
  | .line content => cursor.endLine content
  | .indent => ({ cursor with depth := cursor.depth + 1 }, [])
  | .dedent => ({ cursor with depth := cursor.depth - 1 }, [])
  | .suspend => ({ cursor with suspended := cursor.suspended + 1 }, [])
  | .resume => ({ cursor with suspended := cursor.suspended - 1 }, [])

def run (cursor : Cursor) : List Command → Cursor × List Token
  | [] => (cursor, [])
  | command :: rest =>
    let (here, placed) := cursor.step command
    let (last, more) := here.run rest
    (last, placed ++ more)

@[simp] theorem run_nil (cursor : Cursor) : cursor.run [] = (cursor, []) := rfl

theorem run_cons (cursor : Cursor) (command : Command) (rest : List Command) :
    cursor.run (command :: rest) =
      (((cursor.step command).1.run rest).1,
        (cursor.step command).2 ++ ((cursor.step command).1.run rest).2) := rfl

theorem run_append (cursor : Cursor) (first second : List Command) :
    cursor.run (first ++ second) =
      (((cursor.run first).1.run second).1,
        (cursor.run first).2 ++ ((cursor.run first).1.run second).2) := by
  induction first generalizing cursor with
  | nil => rfl
  | cons command rest ih => simp only [List.cons_append, run_cons, ih, List.append_assoc]

end Cursor

end NodeSmith.Layout
