import NodeSmith.Layout.Cursor

set_option autoImplicit false

namespace NodeSmith.Layout

/-- Whether a style has the indentation of a depth. Beyond one unit, units are added up, and neither
an absent unit nor a record can be. -/
def Style.indents (style : Style) (depth : Nat) : Bool :=
  depth ≤ 1 ||
    match style.unit with
    | .null | .record _ => false
    | _ => true

def Style.admits (style : Style) : Token → Bool
  | .indentation depth => style.indents depth
  | _ => true

/-- What became of requests: where the cursor is, what was laid out, and whether that was all. -/
structure Emission where
  cursor : Cursor
  tokens : List Token
  result : Except Fault Unit

namespace Emission

def start (cursor : Cursor) : Emission := ⟨cursor, [], .ok ()⟩

/-- An emission and the one that follows where it ends; one that failed has none after it. -/
def andThen (first : Emission) (next : Cursor → Emission) : Emission :=
  match first.result with
  | .error _ => first
  | .ok _ =>
    let later := next first.cursor
    { later with tokens := first.tokens ++ later.tokens }

theorem andThen_of_ok (first : Emission) (next : Cursor → Emission)
    (whole : first.result = .ok ()) :
    first.andThen next =
      ⟨(next first.cursor).cursor, first.tokens ++ (next first.cursor).tokens,
        (next first.cursor).result⟩ := by
  simp only [andThen, whole]

end Emission

namespace Cursor

/-- The cursor at the start of a line that could not be indented. -/
def atMargin (cursor : Cursor) : Cursor :=
  { cursor with breakDue := false, lineOpen := false, started := true }

/-- Carries out a request as far as a style goes. -/
def emit (style : Style) (cursor : Cursor) (command : Command) : Emission :=
  let (next, placed) := cursor.step command
  if placed.all style.admits then ⟨next, placed, .ok ()⟩
  else ⟨cursor.atMargin, placed.takeWhile style.admits, .error .notText⟩

def emitAll (style : Style) (cursor : Cursor) : List Command → Emission
  | [] => .start cursor
  | command :: rest => (cursor.emit style command).andThen fun here => here.emitAll style rest

theorem emit_of_admits (style : Style) (cursor : Cursor) (command : Command)
    (admitted : (cursor.step command).2.all style.admits = true) :
    cursor.emit style command = ⟨(cursor.step command).1, (cursor.step command).2, .ok ()⟩ := by
  simp only [emit, admitted, ↓reduceIte]

/-- In a style that has every token of a run, requests come to what the run comes to. -/
theorem emitAll_of_admits (style : Style) (cursor : Cursor) (commands : List Command)
    (admitted : (cursor.run commands).2.all style.admits = true) :
    cursor.emitAll style commands =
      ⟨(cursor.run commands).1, (cursor.run commands).2, .ok ()⟩ := by
  induction commands generalizing cursor with
  | nil => rfl
  | cons command rest ih =>
    simp only [run_cons, List.all_append, Bool.and_eq_true] at admitted
    rw [emitAll, emit_of_admits style cursor command admitted.1, Emission.andThen_of_ok _ _ rfl,
      ih _ admitted.2, run_cons]

end Cursor

/-- A unit of text adds up to the indentation of every depth. -/
theorem Style.admits_of_text (style : Style) (unit : String) (textual : style.unit = .text unit)
    (token : Token) : style.admits token = true := by
  cases token <;> simp only [admits, indents, textual, Bool.or_true]

end NodeSmith.Layout
