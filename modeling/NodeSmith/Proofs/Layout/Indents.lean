import NodeSmith.Layout.Token

set_option autoImplicit false

namespace NodeSmith.Layout

def multiple (unit : String) (depth : Nat) : String := String.join (List.replicate depth unit)

theorem multiple_succ (unit : String) (depth : Nat) :
    multiple unit (depth + 1) = multiple unit depth ++ unit := by
  rw [multiple, List.replicate_succ', String.join_append, String.join_cons, String.join_nil,
    String.append_empty, multiple]

theorem multiple_one (unit : String) : multiple unit 1 = unit := by
  rw [multiple_succ]
  exact String.empty_append

namespace Indents

/-- The table of the multiples of a unit up to a depth. -/
def upTo (unit : String) (deepest : Nat) : Indents :=
  ⟨((List.range (deepest + 1)).map (multiple unit)).toArray⟩

def after (table : Indents) (asked : List Nat) : Indents :=
  asked.foldl (fun table depth => (table.ask depth).2) table

/-- The table knows the multiples of a unit up to a depth, the unit among them, and nothing else. -/
structure Holds (unit : String) (deepest : Nat) (table : Indents) : Prop where
  one_le : 1 ≤ deepest
  table_eq : table = upTo unit deepest

theorem ofUnit_holds (unit : String) : (ofUnit unit).Holds unit 1 := by
  refine ⟨Nat.le_refl 1, ?_⟩
  simp only [upTo, List.range_succ, List.range_zero, List.nil_append, List.cons_append,
    List.map_cons, List.map_nil, multiple_one]
  rfl

variable {unit : String} {deepest : Nat} {table : Indents}

theorem Holds.getElem?_eq (holds : table.Holds unit deepest) (depth : Nat) :
    table.levels[depth]? = if depth ≤ deepest then some (multiple unit depth) else none := by
  rw [holds.table_eq, upTo, List.getElem?_toArray, List.getElem?_map]
  by_cases known : depth ≤ deepest
  · rw [List.getElem?_range (by omega), if_pos known, Option.map_some]
  · rw [List.getElem?_eq_none (by simp only [List.length_range]; omega), if_neg known,
      Option.map_none]

theorem Holds.getD_eq (holds : table.Holds unit deepest) {depth : Nat} (known : depth ≤ deepest) :
    table.levels.getD depth "" = multiple unit depth := by
  rw [Array.getD_eq_getD_getElem?, holds.getElem?_eq, if_pos known, Option.getD_some]

theorem Holds.push (holds : table.Holds unit deepest) :
    Holds unit (deepest + 1) ⟨table.levels.push (multiple unit (deepest + 1))⟩ := by
  refine ⟨Nat.le_add_left 1 deepest, ?_⟩
  rw [holds.table_eq, upTo, upTo, List.push_toArray, List.range_succ (n := deepest + 1),
    List.map_append, List.map_singleton]

/-- Asking gives the multiple of the unit, and makes known what lies below it. -/
theorem ask_spec (holds : table.Holds unit deepest) (depth : Nat) :
    (table.ask depth).1 = multiple unit depth ∧
      (table.ask depth).2.Holds unit (max deepest depth) := by
  induction depth with
  | zero =>
    rw [Nat.max_zero]
    exact ⟨holds.getD_eq (Nat.zero_le deepest), holds⟩
  | succ depth ih =>
    have found := holds.getElem?_eq (depth + 1)
    by_cases known : depth + 1 ≤ deepest
    · rw [if_pos known] at found
      rw [Nat.max_eq_left known]
      simp only [ask, found, true_and]
      exact holds
    · rw [if_neg known] at found
      obtain ⟨shorter, grown⟩ := ih
      rw [Nat.max_eq_right (by omega : deepest ≤ depth)] at grown
      rw [Nat.max_eq_right (by omega : deepest ≤ depth + 1)]
      -- The table that comes back reaches up to the level below, so that what is pushed onto it
      -- stands at the level that was asked for.
      have longer : (table.ask depth).1 ++ (table.ask depth).2.levels.getD 1 "" =
          multiple unit (depth + 1) := by
        rw [shorter, grown.getD_eq grown.one_le, multiple_one, multiple_succ]
      simp only [ask, found, longer, true_and]
      exact grown.push

/-- Requests one after another make known what the deepest of them needs. -/
theorem Holds.after (holds : table.Holds unit deepest) (asked : List Nat) :
    (table.after asked).Holds unit (asked.foldl max deepest) := by
  induction asked generalizing table deepest with
  | nil => exact holds
  | cons depth rest ih => exact ih (ask_spec holds depth).2

/-- Whatever was asked for before, asking for a depth gives the unit as often as the depth says. The
table then has every multiple of the unit up to the deepest level that was ever asked for, one at
least, each in the place of its depth, and nothing else. -/
theorem ask_exact (unit : String) (asked : List Nat) (depth : Nat) :
    ((ofUnit unit).after asked).ask depth =
      (multiple unit depth, upTo unit ((asked ++ [depth]).foldl max 1)) := by
  obtain ⟨indent, grown⟩ := ask_spec ((ofUnit_holds unit).after asked) depth
  rw [List.foldl_append, List.foldl_cons, List.foldl_nil]
  exact Prod.ext indent grown.table_eq

end Indents

def Token.text (unit newline : String) : Token → String
  | .lineBreak => newline
  | .indentation depth => multiple unit depth
  | .stretch content => content

theorem texts_eq_map {unit newline : String} {deepest : Nat} {table : Indents}
    (holds : table.Holds unit deepest) (tokens : List Token) :
    texts newline table tokens = tokens.map (Token.text unit newline) := by
  induction tokens generalizing deepest table with
  | nil => rfl
  | cons token rest ih =>
    cases token with
    | lineBreak => simp only [texts, ih holds, List.map_cons, Token.text]
    | indentation depth =>
      obtain ⟨asked, grown⟩ := Indents.ask_spec holds depth
      simp only [texts, asked, ih grown, List.map_cons, Token.text]
    | stretch content => simp only [texts, ih holds, List.map_cons, Token.text]

theorem text_eq_join (unit newline : String) (tokens : List Token) :
    text unit newline tokens = String.join (tokens.map (Token.text unit newline)) := by
  rw [text, texts_eq_map (Indents.ofUnit_holds unit)]

/-- What does not occur among the tokens does not matter for their text. -/
theorem text_needed (unit newline : String) (tokens : List Token) :
    text (if tokens.any Token.isIndentation then unit else "")
        (if tokens.any Token.isBreak then newline else "") tokens =
      text unit newline tokens := by
  rw [text_eq_join, text_eq_join]
  congr 1
  apply List.map_congr_left
  intro token member
  cases token with
  | lineBreak =>
    have used : tokens.any Token.isBreak = true := List.any_eq_true.mpr ⟨_, member, rfl⟩
    rw [used]
    rfl
  | indentation depth =>
    have used : tokens.any Token.isIndentation = true := List.any_eq_true.mpr ⟨_, member, rfl⟩
    rw [used]
    rfl
  | stretch content => rfl

theorem Style.text_of_text {style : Style} {unit newline : String}
    (indents : style.unit = .text unit) (breaks : style.newline = .text newline)
    (tokens : List Token) : style.text tokens = .ok (Layout.text unit newline tokens) := by
  have given (used : Bool) (value : String) :
      needed used (.text value) = .ok (if used then value else "") := by
    cases used <;> rfl
  rw [← text_needed]
  simp only [Style.text, indents, breaks, given]
  rfl

/-- A text that comes out is laid out with the values of the style, where these are used. -/
theorem Style.exists_of_text_eq_ok {style : Style} {tokens : List Token} {written : String}
    (made : style.text tokens = .ok written) :
    ∃ unit newline, written = Layout.text unit newline tokens ∧
      (unit = "" ∨ style.unit = .text unit) ∧ (newline = "" ∨ style.newline = .text newline) := by
  have origin {used : Bool} {value : Json} {known : String} (ok : needed used value = .ok known) :
      known = "" ∨ value = .text known := by
    cases used with
    | false => exact .inl (Except.ok.inj ok).symm
    | true =>
      cases value with
      | text shown => exact .inr (congrArg Json.text (Except.ok.inj ok))
      | null | bool | number | list | record => cases ok
  rw [Style.text] at made
  cases breaks : needed (tokens.any Token.isBreak) style.newline with
  | error fault => rw [breaks] at made; cases made
  | ok newline =>
    cases indents : needed (tokens.any Token.isIndentation) style.unit with
    | error fault => rw [breaks, indents] at made; cases made
    | ok unit =>
      rw [breaks, indents] at made
      exact ⟨unit, newline, (Except.ok.inj made).symm, origin indents, origin breaks⟩

end NodeSmith.Layout
