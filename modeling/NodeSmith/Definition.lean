import NodeSmith.Json.Value

set_option autoImplicit false

namespace NodeSmith

/-- A field of a node. Apart from flags the values are kept as they are written. -/
structure Member where
  name : Json := .null
  /-- The name of the constructor parameter that sets the field. -/
  param : Json := .null
  type : Json := .null
  nodeArray : Bool := false
  modifiersArray : Bool := false
  optional : Bool := false
  /-- The name of a function that the argument passes through before it is stored. -/
  converter : Json := .null
  /-- Whether the field keeps its value when a node is updated. -/
  readOnly : Bool := false

/-- A kind of node, or a union of node types. -/
structure Definition where
  kind : Json := .null
  type : Json := .null
  baseType : Json := .null
  /-- The member types of a union. -/
  types : Json := .null
  name : Json := .null
  members : Option (List Member) := none

namespace Member

def isArray (member : Member) : Bool := member.nodeArray || member.modifiersArray

def ofJson (value : Json) : Except Fault Member := do
  let fields ← value.asRecord
  return {
    name := Json.field fields "name"
    param := Json.field fields "paramName"
    type := Json.field fields "type"
    nodeArray := (Json.field fields "isNodeArray").present
    modifiersArray := (Json.field fields "isModifiersArray").present
    optional := (Json.field fields "optional").present
    converter := Json.field fields "converter"
    readOnly := (Json.field fields "readonly").present }

/-- Reads the members of a definition; null stands for none. -/
def listOfJson : Json → Except Fault (Option (List Member))
  | .null => .ok none
  | value => do
    let items ← value.items
    let members ← items.mapM ofJson
    return some members

end Member

namespace Definition

def memberList (definition : Definition) : List Member := definition.members.getD []

/-- Whether nodes of the definition can be created: it has a kind. -/
def creatable (definition : Definition) : Bool := definition.kind.present

def mutableMembers (definition : Definition) : List Member :=
  definition.memberList.filter fun member => !member.readOnly

/-- Whether nodes of the definition can be updated: they can be created, and something in them can
change. -/
def updatable (definition : Definition) : Bool :=
  definition.creatable && !definition.mutableMembers.isEmpty

def ofJson (value : Json) : Except Fault Definition := do
  let fields ← value.asRecord
  let members ← Member.listOfJson (Json.field fields "children")
  return {
    kind := Json.field fields "kind"
    type := Json.field fields "type"
    baseType := Json.field fields "baseType"
    types := Json.field fields "types"
    name := Json.field fields "name"
    members := members }

/-- Reads the definitions of a schema, in schema order. -/
def listOfJson (schema : Json) : Except Fault (List Definition) := do
  let records ← schema.items
  records.mapM ofJson

theorem creatable_of_updatable {definition : Definition} (updates : definition.updatable = true) :
    definition.creatable = true := by
  simp only [updatable, Bool.and_eq_true] at updates
  exact updates.1

end Definition

end NodeSmith
