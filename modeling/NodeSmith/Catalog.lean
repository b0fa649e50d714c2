import NodeSmith.Definition
import NodeSmith.Union

set_option autoImplicit false

namespace NodeSmith

/-- The canonical form of a member: names without bars, the parameter named like the field unless
it has a name of its own, and the type in canonical form. -/
def Member.canonical (member : Member) : Except Fault Member := do
  let name ← Union.identifierOf member.name
  let param ← if member.param.present then Union.identifierOf member.param else pure name
  let type ← Union.canonicalOf member.type
  return { member with
    name := .ofText? name
    param := .ofText? param
    type := .ofText? type }

namespace Definition

/-- Applies a rule to a value that is present and keeps one that is not as it is. -/
def ruled (rule : Json → Except Fault (Option String)) (value : Json) : Except Fault Json :=
  if value.present then (rule value).map Json.ofText? else .ok value

def tightKind (value : Json) : Except Fault (Option String) := (Union.tightOf value).map some

/-- The canonical form of a definition. A definition without a type of its own takes that of its
union or else of its base type, and one without a name takes that of its kind or else of its
type. -/
def canonical (definition : Definition) : Except Fault Definition := do
  let kind ← ruled tightKind definition.kind
  let type ← Union.canonicalOf
    (definition.type.orElse (definition.types.orElse definition.baseType))
  let types ← ruled Union.canonicalOf definition.types
  let baseType ← ruled Union.canonicalOf definition.baseType
  let name ← Union.identifierOf (definition.name.orElse (kind.orElse (.ofText? type)))
  let members ← definition.members.mapM fun members => members.mapM Member.canonical
  return {
    kind := kind
    type := .ofText? type
    baseType := baseType
    types := types
    name := .ofText? name
    members := members }

end Definition

/-- A definition with its place in the schema. -/
structure Entry where
  position : Nat
  definition : Definition

/-- The tables of a catalog. Of two definitions under one kind or type the later is found. -/
structure Tables where
  kinds : List (String × Entry) := []
  /-- Definitions by the key of their authored type; one that is only white space has no key. -/
  types : List (Option String × Entry) := []
  /-- The definitions on each base type, in schema order. -/
  subtypes : List (String × List Entry) := []

namespace Tables

def addKind (tables : Tables) (entry : Entry) : Tables :=
  match entry.definition.kind with
  | .text kind =>
    if kind = "" then tables else { tables with kinds := Assoc.insert tables.kinds kind entry }
  | _ => tables

def addType (tables : Tables) (entry : Entry) : Tables :=
  { tables with
    types := Assoc.insert tables.types (Union.keyOfCanonical entry.definition.type) entry }

def addSubtype (tables : Tables) (entry : Entry) : Tables :=
  match Union.keyOfCanonical entry.definition.baseType with
  | some key =>
    let earlier := (Assoc.get? tables.subtypes key).getD []
    { tables with subtypes := Assoc.insert tables.subtypes key (earlier ++ [entry]) }
  | none => tables

/-- Registers a definition. A type that was only derived names a union or a base type and not the
definition, so that it is not registered. -/
def add (tables : Tables) (authored : Bool) (entry : Entry) : Tables :=
  let withKind := tables.addKind entry
  let withType := if authored then withKind.addType entry else withKind
  withType.addSubtype entry

def addAll (tables : Tables) : Nat → List (Bool × Definition) → Tables
  | _, [] => tables
  | position, (authored, definition) :: rest =>
    addAll (tables.add authored ⟨position, definition⟩) (position + 1) rest

/-- The definition whose authored type has the members of a value. -/
def findType (tables : Tables) (value : Json) : Except Fault (Option Entry) := do
  match ← Union.keyOf value with
  | none => return none
  | some key => return Assoc.get? tables.types (some key)

def findKind (tables : Tables) : Json → Except Fault (Option Entry)
  | .text kind => .ok (Assoc.get? tables.kinds kind)
  | .list _ => .error .notKey
  | .record _ => .error .notKey
  | _ => .ok none

def findSubtypes (tables : Tables) (value : Json) : Except Fault (List Entry) := do
  match ← Union.keyOf value with
  | none => return []
  | some key => return (Assoc.get? tables.subtypes key).getD []

def isNodeType (tables : Tables) (type : Json) : Bool :=
  match Union.keyOfCanonical type with
  | none => false
  | some key => (Assoc.get? tables.types (some key)).isSome

end Tables

/-- The definitions of a schema in canonical form, with the tables that find them. -/
structure Catalog where
  definitions : List Definition
  tables : Tables

/-- The catalog of a list of definitions. All are brought into canonical form before any is
registered. -/
def Catalog.ofDefinitions (definitions : List Definition) : Except Fault Catalog := do
  let canonical ← definitions.mapM Definition.canonical
  let authored := definitions.map fun definition => definition.type.present
  return { definitions := canonical, tables := Tables.addAll {} 0 (authored.zip canonical) }

def Catalog.ofSchema (schema : Json) : Except Fault Catalog := do
  Catalog.ofDefinitions (← Definition.listOfJson schema)

end NodeSmith
