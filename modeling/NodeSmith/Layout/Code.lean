import NodeSmith.Layout.Cursor

set_option autoImplicit false

namespace NodeSmith.Layout

/-- A line, a blank line, or code one unit deeper. -/
inductive Code
  | line (text : String)
  | blank
  | nested (body : List Code)
  deriving Repr

namespace Code

mutual

def commands : Code → List Command
  | line text => [.line text]
  | blank => [.line ""]
  | nested body => .indent :: commandsOf body ++ [.dedent]

def commandsOf : List Code → List Command
  | [] => []
  | code :: rest => code.commands ++ commandsOf rest

end

/-- Pieces of code with a blank line between two of them. -/
def separated (pieces : List (List Code)) : List Code := (pieces.intersperse [blank]).flatten

@[simp] theorem commandsOf_nil : commandsOf [] = [] := by simp only [commandsOf]

@[simp] theorem commandsOf_cons (code : Code) (rest : List Code) :
    commandsOf (code :: rest) = code.commands ++ commandsOf rest := by simp only [commandsOf]

theorem commandsOf_append (first second : List Code) :
    commandsOf (first ++ second) = commandsOf first ++ commandsOf second := by
  induction first with
  | nil => simp only [List.nil_append, commandsOf_nil]
  | cons code rest ih => simp only [List.cons_append, commandsOf_cons, ih, List.append_assoc]

/-- Each piece after the first has a blank line before it. -/
theorem separated_cons (piece : List Code) (rest : List (List Code)) :
    separated (piece :: rest) = piece ++ rest.flatMap (blank :: ·) := by
  induction rest generalizing piece with
  | nil =>
    simp only [separated, List.intersperse_singleton, List.flatten_cons, List.flatten_nil,
      List.append_nil, List.flatMap_nil]
  | cons next rest ih =>
    have shorter := ih next
    simp only [separated] at shorter ⊢
    rw [List.intersperse_cons_cons, List.flatten_cons, List.flatten_cons, shorter]
    simp only [List.cons_append, List.nil_append, List.flatMap_cons]

end Code

end NodeSmith.Layout
