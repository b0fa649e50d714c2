import NodeSmith.CommandLine.Session
import NodeSmith.Files.Tree

set_option autoImplicit false

namespace NodeSmith

/-- The fault is not that a text is rejected. -/
def Fault.Unrelated (fault : Fault) : Prop := ∀ reason, fault ≠ .rejected reason

namespace Outcome

variable {α β : Type} {allowed : Fault → Prop}

/-- A computation fails with none but allowed faults. -/
def FailsOnly (allowed : Fault → Prop) (outcome : Except Fault α) : Prop :=
  ∀ fault, outcome = .error fault → allowed fault

theorem FailsOnly.ok (value : α) : FailsOnly allowed (.ok value) := by
  intro fault impossible
  cases impossible

theorem FailsOnly.error {fault : Fault} (allows : allowed fault) :
    FailsOnly allowed (.error fault : Except Fault α) := by
  rintro _ ⟨⟩
  exact allows

theorem FailsOnly.bind {first : Except Fault α} {next : α → Except Fault β}
    (fails : FailsOnly allowed first) (further : ∀ value, FailsOnly allowed (next value)) :
    FailsOnly allowed (first >>= next) := by
  cases first with
  | error fault => exact .error (fails fault rfl)
  | ok value => exact further value

end Outcome

open Outcome (FailsOnly)

theorem Path.vet_fails (text : String) : FailsOnly Fault.Unrelated (Path.vet text) := by
  unfold vet
  dsimp only
  split
  · exact .error nofun
  · split
    · exact .error nofun
    · exact .ok ()

namespace Tree

variable (tree : Tree)

theorem follow_fails (location names : List String) :
    FailsOnly Fault.Unrelated (tree.follow location names) := by
  fun_induction tree.follow location names with
  | case1 location => exact .ok location
  | case2 => exact .error nofun
  | case3 location name rest _ _ ih => exact ih
  | case4 => exact .error nofun
  | case5 => exact .error nofun

theorem locate_fails (path : String) : FailsOnly Fault.Unrelated (tree.locate path) := by
  unfold locate
  split
  · rename_i fault refused
    exact .error (Path.vet_fails path fault refused)
  · split
    · exact .error nofun
    · split
      · exact .error nofun
      · exact tree.follow_fails _ _

theorem find_fails (path : String) : FailsOnly Fault.Unrelated (tree.find path) := by
  apply (tree.locate_fails path).bind
  intro location
  split
  · exact .ok _
  · exact .error nofun

theorem read_fails (path : String) : FailsOnly Fault.Unrelated (tree.read path) := by
  apply (tree.find_fails path).bind
  intro entry
  cases entry with
  | file bytes => exact .ok bytes
  | directory => exact .error nofun

theorem createDirectory_fails (path : String) :
    FailsOnly Fault.Unrelated (tree.createDirectory path) := by
  apply (tree.locate_fails path).bind
  intro location
  split
  · exact .error nofun
  · exact .ok _

theorem stage_fails (directory hint : String) :
    FailsOnly Fault.Unrelated (tree.stage directory hint) := by
  apply (tree.locate_fails directory).bind
  intro folder
  split
  · exact .error nofun
  · apply (tree.locate_fails _).bind
    intro location
    exact .ok _

theorem replace_fails (source target : String) :
    FailsOnly Fault.Unrelated (tree.replace source target) := by
  apply (tree.read_fails source).bind
  intro bytes
  apply (tree.locate_fails source).bind
  intro start
  apply (tree.locate_fails target).bind
  intro goal
  split
  · exact .error nofun
  · split
    · exact .error nofun
    · exact .ok _

theorem remove_fails (path : String) : FailsOnly Fault.Unrelated (tree.remove path) := by
  apply (tree.locate_fails path).bind
  intro location
  split
  · exact .ok _
  · exact .error nofun
  · exact .error nofun

theorem overwrite_fails (path : String) (bytes : ByteArray) :
    FailsOnly Fault.Unrelated (tree.overwrite path bytes) := by
  apply (tree.locate_fails path).bind
  intro location
  split
  · exact .error nofun
  · exact .ok _

end Tree

namespace TreeM

variable {α β : Type} {allowed : Fault → Prop}

def FailsOnly (allowed : Fault → Prop) (work : TreeM α) : Prop :=
  ∀ tree fault after, work tree = .error fault after → allowed fault

namespace FailsOnly

theorem pure (value : α) : FailsOnly allowed (Pure.pure value : TreeM α) := by
  intro tree fault after impossible
  cases impossible

theorem throw {fault : Fault} (allows : allowed fault) :
    FailsOnly allowed (MonadExceptOf.throw fault : TreeM α) := by
  rintro tree _ _ ⟨⟩
  exact allows

theorem bind {work : TreeM α} {next : α → TreeM β} (fails : FailsOnly allowed work)
    (further : ∀ value, FailsOnly allowed (next value)) : FailsOnly allowed (work >>= next) := by
  intro tree fault after failed
  change EStateM.bind work next tree = _ at failed
  unfold EStateM.bind at failed
  split at failed
  · exact further _ _ _ _ failed
  · rename_i same
    cases failed
    exact fails _ _ _ same

/-- A handler is only called with allowed faults. -/
theorem tryCatch {work : TreeM α} {handler : Fault → TreeM α} (fails : FailsOnly allowed work)
    (handles : ∀ fault, allowed fault → FailsOnly allowed (handler fault)) :
    FailsOnly allowed (MonadExceptOf.tryCatch work handler) := by
  intro tree fault after failed
  change EStateM.tryCatch work handler tree = _ at failed
  unfold EStateM.tryCatch at failed
  dsimp only at failed
  split at failed
  · rename_i same
    exact handles _ (fails _ _ _ same) _ _ _ failed
  · rename_i passed
    exact absurd failed (passed _ _)

theorem ofExcept {outcome : Except Fault α} (fails : Outcome.FailsOnly allowed outcome) :
    FailsOnly allowed (Session.ofExcept outcome : TreeM α) := by
  cases outcome with
  | ok value => exact pure value
  | error fault => exact throw (fails fault rfl)

theorem change {next : Tree → Except Fault Tree}
    (fails : ∀ tree, Outcome.FailsOnly allowed (next tree)) :
    FailsOnly allowed (Tree.change next) := by
  intro tree fault after failed
  unfold Tree.change at failed
  split at failed
  · cases failed
  · rename_i same
    cases failed
    exact fails tree _ same

end FailsOnly

end TreeM

end NodeSmith
