import NodeSmith.Layout.Code
import NodeSmith.Layout.Emission

set_option autoImplicit false

namespace NodeSmith.Layout

namespace Emission

theorem andThen_of_error {fault : Fault} (first : Emission) (next : Cursor → Emission)
    (failed : first.result = .error fault) : first.andThen next = first := by
  simp only [andThen, failed]

theorem start_andThen (cursor : Cursor) (next : Cursor → Emission) :
    (start cursor).andThen next = next cursor := by
  rw [andThen_of_ok _ _ rfl]
  simp only [start, List.nil_append]

theorem andThen_start (first : Emission) : first.andThen start = first := by
  cases ended : first.result with
  | error fault => exact andThen_of_error first start ended
  | ok =>
    rw [andThen_of_ok first start ended]
    simp only [start, List.append_nil, ← ended]

theorem andThen_assoc (first : Emission) (second third : Cursor → Emission) :
    (first.andThen second).andThen third =
      first.andThen fun here => (second here).andThen third := by
  cases ended : first.result with
  | error fault =>
    rw [andThen_of_error first second ended, andThen_of_error first third ended,
      andThen_of_error first _ ended]
  | ok =>
    rw [andThen_of_ok first second ended, andThen_of_ok first _ ended]
    cases later : (second first.cursor).result with
    | error fault => rw [andThen_of_error _ third rfl, andThen_of_error _ third later, later]
    | ok =>
      rw [andThen_of_ok _ third rfl, andThen_of_ok _ third later]
      simp only [List.append_assoc]

end Emission

theorem Cursor.emitAll_append (style : Style) (cursor : Cursor) (first second : List Command) :
    cursor.emitAll style (first ++ second) =
      (cursor.emitAll style first).andThen fun here => here.emitAll style second := by
  induction first generalizing cursor with
  | nil => rw [List.nil_append, emitAll, Emission.start_andThen]
  | cons command rest ih =>
    simp only [List.cons_append, emitAll, Emission.andThen_assoc, ih]

/-- Work that lays something out from a cursor on. -/
abbrev Writing := Cursor → Emission

namespace Writing

/-- Two pieces of work, the second from where the first one ends. -/
def followedBy (first second : Writing) : Writing := fun cursor => (first cursor).andThen second

def ofCommands (style : Style) (commands : List Command) : Writing := fun cursor =>
  cursor.emitAll style commands

def ofCode (style : Style) (pieces : List Code) : Writing :=
  ofCommands style (Code.commandsOf pieces)

def nested (style : Style) (body : Writing) : Writing :=
  (ofCommands style [.indent]).followedBy (body.followedBy (ofCommands style [.dedent]))

/-- An emission and two pieces of work after it. -/
theorem andThen_followedBy (written : Emission) (first second : Writing) :
    written.andThen (first.followedBy second) = (written.andThen first).andThen second :=
  (Emission.andThen_assoc written first second).symm

theorem followedBy_assoc (first second third : Writing) :
    (first.followedBy second).followedBy third = first.followedBy (second.followedBy third) :=
  funext fun cursor => Emission.andThen_assoc (first cursor) second third

theorem start_followedBy (next : Writing) : followedBy Emission.start next = next :=
  funext fun cursor => Emission.start_andThen cursor next

theorem followedBy_start (first : Writing) : first.followedBy Emission.start = first :=
  funext fun cursor => Emission.andThen_start (first cursor)

theorem ofCommands_append (style : Style) (first second : List Command) :
    ofCommands style (first ++ second) =
      (ofCommands style first).followedBy (ofCommands style second) :=
  funext fun cursor => cursor.emitAll_append style first second

theorem ofCode_nil (style : Style) : ofCode style [] = Emission.start := by
  rw [ofCode, Code.commandsOf_nil]
  rfl

theorem ofCode_append (style : Style) (first second : List Code) :
    ofCode style (first ++ second) = (ofCode style first).followedBy (ofCode style second) := by
  rw [ofCode, Code.commandsOf_append, ofCommands_append, ofCode, ofCode]

theorem ofCode_nested (style : Style) (body : List Code) :
    ofCode style [.nested body] = nested style (ofCode style body) := by
  simp only [ofCode, nested, ← ofCommands_append, Code.commandsOf_cons, Code.commandsOf_nil,
    Code.commands, List.append_nil, List.cons_append, List.nil_append]

end Writing

end NodeSmith.Layout
