import NodeSmith.Proofs.Files.Growth

set_option autoImplicit false

namespace NodeSmith.Publication

open NodeSmith.Tree (Grows Writes KeepsDirectories)

/-- A publication that is asked for. -/
structure Request where
  /-- Whether the target is written straight, without a copy beside it. -/
  direct : Bool
  target : Path
  content : String
  /-- Whether the content has to pass the check. -/
  checked : Bool
  deriving DecidableEq

namespace Request

def applied (check : Check) (request : Request) : Option Check :=
  if request.checked then some check else none

def perform (check : Check) (request : Request) : TreeM Unit :=
  if request.direct then overwriteFile (request.applied check) request.target request.content
  else replaceFile (request.applied check) request.target request.content

end Request

structure Event where
  before : Tree
  request : Request
  result : Except Fault Unit
  after : Tree

def Request.event (check : Check) (tree : Tree) (request : Request) : Event :=
  match request.perform check tree with
  | .ok _ after => ⟨tree, request, .ok (), after⟩
  | .error fault after => ⟨tree, request, .error fault, after⟩

def history (check : Check) (tree : Tree) : List Request → List Event
  | [] => []
  | request :: rest =>
    let event := request.event check tree
    event :: history check event.after rest

namespace Event

end Event

section Exactness

variable {check : Check} {request : Request} {before middle after : Tree} {goal : List String}

end Exactness

section After

variable {check : Check} {event : Event} {location : List String}

end After

def sampleTree : Tree := ⟨["w"], [(["w"], .directory), (["w", "old.ts"], .file "old".toUTF8)]⟩

end NodeSmith.Publication
