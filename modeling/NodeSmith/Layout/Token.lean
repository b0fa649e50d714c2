import NodeSmith.Json.Value

set_option autoImplicit false

namespace NodeSmith.Layout

/-- A piece of laid-out text. A stretch is text without line breaks. -/
inductive Token
  | lineBreak
  | indentation (depth : Nat)
  | stretch (content : String)
  deriving DecidableEq, Repr

/-- The indentation texts by depth, as far as they have been needed. -/
structure Indents where
  levels : Array String

namespace Indents

/-- The two levels that need no work: none, and one unit. -/
def ofUnit (unit : String) : Indents := ⟨#["", unit]⟩

/-- The indentation of a depth. A level beyond the known ones is the one below it with level one
behind it, and is known from then on. -/
def ask (table : Indents) : Nat → String × Indents
  | 0 => (table.levels.getD 0 "", table)
  | depth + 1 =>
    match table.levels[depth + 1]? with
    | some known => (known, table)
    | none =>
      let (shorter, grown) := ask table depth
      let longer := shorter ++ grown.levels.getD 1 ""
      (longer, ⟨grown.levels.push longer⟩)

end Indents

def texts (newline : String) : Indents → List Token → List String
  | _, [] => []
  | table, .lineBreak :: rest => newline :: texts newline table rest
  | table, .indentation depth :: rest =>
    let (indent, grown) := table.ask depth
    indent :: texts newline grown rest
  | table, .stretch content :: rest => content :: texts newline table rest

def text (unit newline : String) (tokens : List Token) : String :=
  String.join (texts newline (.ofUnit unit) tokens)

/-- The values that indent lines and that break them. Only a value that is used has to be text. -/
structure Style where
  unit : Json := .text "    "
  newline : Json := .text "\n"

/-- The text of a value that is used; a value that is not used may be anything. -/
def needed (used : Bool) (value : Json) : Except Fault String :=
  if used then value.asText else .ok ""

def Token.isBreak : Token → Bool
  | .lineBreak => true
  | _ => false

def Token.isIndentation : Token → Bool
  | .indentation _ => true
  | _ => false

def Style.text (style : Style) (tokens : List Token) : Except Fault String := do
  let newline ← needed (tokens.any Token.isBreak) style.newline
  let unit ← needed (tokens.any Token.isIndentation) style.unit
  return Layout.text unit newline tokens

end NodeSmith.Layout
