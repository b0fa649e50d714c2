import NodeSmith.Definition
import NodeSmith.Json.Printer
import NodeSmith.Layout.Code
import NodeSmith.Layout.Emission
import NodeSmith.Settings

set_option autoImplicit false

namespace NodeSmith.Factory

open Layout (Code Command Cursor Emission Style)

def declaredType (member : Member) : String :=
  member.type.display ++ if member.isArray then "[]" else ""

def createParameter (member : Member) : String :=
  member.param.displayPresent ++ (if member.optional then "?" else "") ++ ": " ++
    declaredType member

/-- The parameters of a create function: those of the members, then where the node stands and its
flags. -/
def createParameters (definition : Definition) : List String :=
  definition.memberList.map createParameter ++ ["location?: TextRange", "flags?: NodeFlags"]

def initializer (member : Member) : String :=
  let param := member.param.display
  if member.converter.present then member.converter.display ++ "(" ++ param ++ ")"
  else if member.nodeArray then "createNodeArray(" ++ param ++ ")"
  else if member.modifiersArray then "<ModifiersArray>" ++ param
  else param

/-- The parameter that holds the modifiers of the node: that of the last array of modifiers. -/
def modifiersParam (definition : Definition) : Json :=
  match (definition.memberList.filter fun member => member.modifiersArray).getLast? with
  | some member => member.param
  | none => .null

def finishArguments (definition : Definition) : List String :=
  let modifiers := modifiersParam definition
  ["node", "location", "flags"] ++ if modifiers.present then [modifiers.display] else []

def createFunction (definition : Definition) : List Code :=
  let type := definition.type.display
  [.line ("export function create" ++ definition.name.display ++ "(" ++
      ", ".intercalate (createParameters definition) ++ "): " ++ type ++ " \x7b"),
    .nested (
      .line ("var node = beginNode<" ++ type ++ ">(SyntaxKind." ++ definition.kind.display ++ ");")
      :: definition.memberList.map (fun member =>
          .line ("node." ++ member.name.display ++ " = " ++ initializer member ++ ";"))
      ++ [.line ("return finishNode(" ++ ", ".intercalate (finishArguments definition) ++ ");")]),
    .line "\x7d"]

def updateParameter (member : Member) : String :=
  member.param.display ++ ": " ++ declaredType member

def updateParameters (definition : Definition) : List String :=
  ("node: " ++ definition.type.display) :: definition.mutableMembers.map updateParameter

def changeTest (member : Member) : String :=
  "node." ++ member.name.display ++ " !== " ++ member.param.display

/-- What an update hands on for a member: its argument, or the old field if that is read only. -/
def carriedArgument (member : Member) : String :=
  if member.readOnly then "node." ++ member.name.display else member.param.display

def carriedArguments (definition : Definition) : List String :=
  definition.memberList.map carriedArgument ++ ["node", "node.flags"]

def updateFunction (definition : Definition) : List Code :=
  let name := definition.name.display
  [.line ("export function update" ++ name ++ "(" ++
      ", ".intercalate (updateParameters definition) ++ "): " ++ definition.type.display ++
      " \x7b"),
    .nested [
      .line ("if (" ++ " || ".intercalate (definition.mutableMembers.map changeTest) ++ ") \x7b"),
      .nested [
        .line ("return create" ++ name ++ "(" ++
          ", ".intercalate (carriedArguments definition) ++ ");")],
      .line "\x7d",
      .line "return node;"],
    .line "\x7d"]

def create? (definition : Definition) : Option (List Code) :=
  if definition.creatable then some (createFunction definition) else none

def update? (definition : Definition) : Option (List Code) :=
  if definition.updatable then some (updateFunction definition) else none

def functions (definition : Definition) : List (List Code) :=
  (create? definition).toList ++ (update? definition).toList

/-- A function after others: a blank line comes first if one was written before. The flag that
comes back says whether one has been written now. -/
def follow (written : Bool) : Option (List Code) → Bool × List Code
  | none => (written, [])
  | some function => (true, if written then .blank :: function else function)

def moduleLine (settings : Settings) : String :=
  "export module " ++ settings.factoryModule.display ++ " \x7b"

def code (settings : Settings) (definitions : List Definition) : List Code :=
  [.line (moduleLine settings),
    .nested (Code.separated (definitions.flatMap functions)),
    .line "\x7d",
    .blank]

/-- Requests that are laid out together, and whether a function has been written after them. -/
structure Part where
  commands : List Command
  written : Bool

def functionParts (written : Bool) : List (List Code) → List Part
  | [] => []
  | function :: rest =>
    let (now, code) := follow written (some function)
    ⟨Code.commandsOf code, now⟩ :: functionParts now rest

/-- The factory module in parts: its opening, its functions, its end. -/
def parts (settings : Settings) (definitions : List Definition) : List Part :=
  let functions := definitions.flatMap functions
  ⟨[.line (moduleLine settings), .indent], false⟩ :: functionParts false functions ++
    [⟨.dedent :: Code.commandsOf [.line "\x7d", .blank], !functions.isEmpty⟩]

/-- Lays out parts as far as a style goes. The flag that comes back is that of the last part that
was laid out whole. -/
def emitParts (style : Style) (cursor : Cursor) (written : Bool) : List Part → Emission × Bool
  | [] => (.start cursor, written)
  | part :: rest =>
    let here := cursor.emitAll style part.commands
    match here.result with
    | .error _ => (here, written)
    | .ok _ =>
      let (later, flag) := emitParts style here.cursor part.written rest
      (here.andThen fun _ => later, flag)

theorem functionParts_commands (functions : List (List Code)) :
    (functionParts true functions).flatMap Part.commands =
      Code.commandsOf (functions.flatMap (Code.blank :: ·)) := by
  induction functions with
  | nil => simp only [functionParts, List.flatMap_nil, Code.commandsOf_nil]
  | cons function rest ih =>
    simp only [functionParts, follow, ↓reduceIte, List.flatMap_cons, ih, Code.commandsOf_append]

/-- The parts of the factory module make up its code. -/
theorem parts_commands (settings : Settings) (definitions : List Definition) :
    (parts settings definitions).flatMap Part.commands =
      Code.commandsOf (code settings definitions) := by
  simp only [parts, code]
  cases definitions.flatMap functions with
  | nil =>
    simp only [functionParts, Code.separated, List.intersperse_nil, List.flatten_nil,
      Code.commandsOf_cons, Code.commandsOf_nil, Code.commands, List.append_nil, List.cons_append,
      List.nil_append, List.isEmpty_nil, Bool.not_true, List.flatMap_cons, List.flatMap_nil]
  | cons function rest =>
    simp only [functionParts, follow, functionParts_commands, Bool.false_eq_true, ↓reduceIte,
      Code.separated_cons, Code.commandsOf_append, Code.commandsOf_cons, Code.commandsOf_nil,
      Code.commands, List.append_nil, List.cons_append, List.nil_append, List.isEmpty_cons,
      Bool.not_false, List.flatMap_cons, List.flatMap_append, List.flatMap_nil, List.append_assoc]

end NodeSmith.Factory
