import NodeSmith.Definition

set_option autoImplicit false

namespace NodeSmith

/-- Cases with one body: a single updatable definition, or a run of definitions without an update
function. -/
structure DispatchGroup where
  updatable : Bool
  members : List Definition

namespace DispatchGroup

/-- The groups of the creatable definitions, in schema order. Definitions that nodes cannot be
created from do not part a run. -/
def ofDefinitions : List Definition → List DispatchGroup
  | [] => []
  | definition :: rest =>
    let groups := ofDefinitions rest
    if !definition.creatable then groups
    else if definition.updatable then ⟨true, [definition]⟩ :: groups
    else
      match groups with
      | ⟨false, run⟩ :: more => ⟨false, definition :: run⟩ :: more
      | _ => ⟨false, [definition]⟩ :: groups

end DispatchGroup

end NodeSmith
