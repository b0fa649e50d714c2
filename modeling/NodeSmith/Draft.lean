import NodeSmith.Catalog

set_option autoImplicit false

namespace NodeSmith

structure Draft where
  definitions : List Definition
  tables : Option Tables := none

/-- One change to a draft. A position beyond the end changes no definition. -/
inductive Edit
  | append (definition : Definition)
  | erase (position : Nat)
  | revise (position : Nat) (definition : Definition)
  | index

namespace Draft

/-- Carries out an edit. Every edit drops the tables, and only an index that succeeds makes new
ones. -/
def apply (draft : Draft) : Edit → Except Fault Unit × Draft
  | .append definition => (.ok (), { definitions := draft.definitions ++ [definition] })
  | .erase position => (.ok (), { definitions := draft.definitions.eraseIdx position })
  | .revise position definition =>
    (.ok (), { definitions := draft.definitions.set position definition })
  | .index =>
    match Catalog.ofDefinitions draft.definitions with
    | .ok catalog => (.ok (), { definitions := catalog.definitions, tables := some catalog.tables })
    | .error fault => (.error fault, { definitions := draft.definitions })

/-- The draft after a history of edits; those that fail count as well. -/
def replay (draft : Draft) : List Edit → Draft
  | [] => draft
  | edit :: rest => replay (draft.apply edit).2 rest

def ofSchema (schema : Json) : Except Fault Draft := do
  return { definitions := ← Definition.listOfJson schema }

end Draft

end NodeSmith
