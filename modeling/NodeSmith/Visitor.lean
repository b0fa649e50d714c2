import NodeSmith.Catalog
import NodeSmith.Dispatch
import NodeSmith.Json.Printer
import NodeSmith.Layout.Code
import NodeSmith.Settings

set_option autoImplicit false

namespace NodeSmith.Visitor

open Layout (Code)

def fallbackText : String :=
  "export function fallback<TNode extends Node>(" ++
  "node: TNode, cbNode: Visitor, state?: any): TNode \x7b\n" ++
  "    if (!cbNode || !node) \x7b\n" ++
  "        return node;\n" ++
  "    \x7d\n" ++
  "    return <TNode>accept(node, cbNode, state);\n" ++
  "\x7d"

def fallback : List Code := [.line fallbackText, .blank]

/-- What a rebuilt node gets for a member: the old value, visited if the member's type is the
authored type of a definition. -/
def visitedArgument (tables : Tables) (definition : Definition) (member : Member) : String :=
  let value := "(<" ++ definition.type.display ++ ">node)." ++ member.name.display
  if tables.isNodeType member.type then
    (if member.nodeArray then "visitNodes" else "visit") ++ "<" ++ member.type.display ++ ">(" ++
      value ++ ", cbNode, state)"
  else value

/-- What a rebuilt node is updated with: the old node, then its mutable members. -/
def rebuildArguments (tables : Tables) (definition : Definition) : List String :=
  ("<" ++ definition.type.display ++ ">node") ::
    definition.mutableMembers.map (visitedArgument tables definition)

/-- Texts as lines, with a comma after each but the last, which ends in the closing text. -/
def commaLines (closing : String) : List String → List Code
  | [] => []
  | [last] => [.line (last ++ closing)]
  | first :: rest => .line (first ++ ",") :: commaLines closing rest

def rebuild (settings : Settings) (tables : Tables) (definition : Definition) : List Code :=
  [.line ("return " ++ settings.factoryModule.display ++ ".update" ++ definition.name.display ++
      "("),
    .nested (commaLines ");" (rebuildArguments tables definition))]

def label (definition : Definition) : Code :=
  .line ("case SyntaxKind." ++ definition.kind.display ++ ":")

def body (settings : Settings) (tables : Tables) (group : DispatchGroup) : List Code :=
  if group.updatable then (group.members.head?.map (rebuild settings tables)).getD []
  else [.line "return node;"]

def cases (settings : Settings) (tables : Tables) (group : DispatchGroup) : List Code :=
  group.members.map label ++ [.nested (body settings tables group)]

def accept (settings : Settings) (catalog : Catalog) : List Code :=
  [.line "function accept(node: Node, cbNode: Visitor, state?: any): Node \x7b",
    .nested [
      .line "switch (node.kind) \x7b",
      .nested ((DispatchGroup.ofDefinitions catalog.definitions).flatMap
        (cases settings catalog.tables)),
      .line "\x7d"],
    .line "\x7d"]

def code (settings : Settings) (catalog : Catalog) : List Code :=
  [.line ("export module " ++ settings.visitorModule.display ++ " \x7b"),
    .nested (fallback ++ accept settings catalog),
    .line "\x7d"]

end NodeSmith.Visitor
