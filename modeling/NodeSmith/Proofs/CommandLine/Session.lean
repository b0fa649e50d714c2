import NodeSmith.Proofs.CommandLine.Destination
import NodeSmith.Proofs.CommandLine.Invocation
import NodeSmith.Proofs.Files.History

set_option autoImplicit false

namespace NodeSmith.Session

open Publication (Request wellBraced)

variable {invocation : Invocation} {path : String} {before tree : Tree}

def document (tree : Tree) (path : String) : Except Fault Json := do
  Json.ofBytes (← tree.read path)

def settingsOf (tree : Tree) : Option String → Except Fault Settings
  | none => .ok {}
  | some written => do Settings.load (← document tree (settingsPath written))

/-- The publication of what a schema describes, with the tables of its catalog. -/
def request (settings : Settings) (schema : Json) (target : Path) :
    Except Fault (Tables × Request) := do
  let catalog ← Catalog.ofSchema schema
  let content ← SourceFile.text settings catalog
  let validated ← settings.output.validated
  let atomic ← settings.output.atomic
  return (catalog.tables, ⟨!atomic, target, content, validated⟩)

/-- On a tree, work does nothing but compute an outcome. -/
def Reads {α : Type} (tree : Tree) (outcome : Except Fault α) (work : TreeM α) : Prop :=
  work tree = (ofExcept outcome : TreeM α) tree

namespace Reads

variable {α β : Type} {outcome : Except Fault α} {work : TreeM α}

theorem bind_eq (reads : Reads tree outcome work) (next : α → TreeM β) :
    (work >>= next) tree = (ofExcept outcome >>= next : TreeM β) tree := by
  change EStateM.bind work next tree = EStateM.bind (ofExcept outcome) next tree
  rw [EStateM.bind, EStateM.bind, reads]

theorem bind {further : α → Except Fault β} {next : α → TreeM β} (reads : Reads tree outcome work)
    (onward : ∀ value, Reads tree (further value) (next value)) :
    Reads tree (outcome >>= further) (work >>= next) := by
  rw [Reads, reads.bind_eq next]
  cases outcome with
  | error fault => rfl
  | ok value => exact onward value

end Reads

namespace Task

end Task

section Samples

/-- A directory with an empty schema, a file, and two settings that have files written straight. The
second ones refer to half a surrogate pair. -/
def sampleTree : Tree := ⟨["w"], [(["w"], .directory), (["w", "s.json"], .file "[]".toUTF8),
  (["w", "factory.generated.ts"], .file "old".toUTF8),
  (["w", "straight.json"], .file ("\x7b\"output\": \x7b\"atomic_write\": false\x7d, " ++
    "\"references\": []\x7d").toUTF8),
  (["w", "half.json"], .file ("\x7b\"output\": \x7b\"atomic_write\": false\x7d, " ++
    "\"references\": [\"\\ud800\"]\x7d").toUTF8)]⟩

end Samples

end NodeSmith.Session
