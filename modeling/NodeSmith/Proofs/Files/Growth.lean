import NodeSmith.Files.Publication
import NodeSmith.Proofs.Files.Changes
import NodeSmith.Proofs.Text.Points

set_option autoImplicit false

namespace NodeSmith

namespace TreeM

variable {α β : Type} {tree middle : Tree}

def left : EStateM.Result Fault Tree α → Tree
  | .ok _ tree => tree
  | .error _ tree => tree

def outcome : EStateM.Result Fault Tree α → Except Fault α
  | .ok value _ => .ok value
  | .error fault _ => .error fault

theorem bind_of_ok {work : TreeM α} {value : α} (next : α → TreeM β)
    (ran : work tree = .ok value middle) : (work >>= next) tree = next value middle := by
  change EStateM.bind work next tree = _
  rw [EStateM.bind, ran]

theorem bind_of_error {work : TreeM α} {fault : Fault} (next : α → TreeM β)
    (ran : work tree = .error fault middle) : (work >>= next) tree = .error fault middle := by
  change EStateM.bind work next tree = _
  rw [EStateM.bind, ran]

theorem tryCatch_of_ok {work : TreeM α} {value : α} (handler : Fault → TreeM α)
    (ran : work tree = .ok value middle) : tryCatch work handler tree = .ok value middle := by
  change EStateM.tryCatch work handler tree = _
  rw [EStateM.tryCatch, ran]

theorem tryCatch_of_error {work : TreeM α} {fault : Fault} (handler : Fault → TreeM α)
    (ran : work tree = .error fault middle) :
    tryCatch work handler tree = handler fault middle := by
  change EStateM.tryCatch work handler tree = _
  rw [EStateM.tryCatch, ran]
  rfl

theorem change_of_ok {next : Tree → Except Fault Tree} {changed : Tree}
    (made : next tree = .ok changed) : Tree.change next tree = .ok () changed := by
  rw [Tree.change, made]

theorem overwrite_of_ok {path : String} {bytes : ByteArray} {changed : Tree}
    (written : tree.overwrite path bytes = .ok changed) :
    (FileStore.overwrite path bytes : TreeM Unit) tree = .ok () changed := change_of_ok written

theorem change_of_error {next : Tree → Except Fault Tree} {fault : Fault}
    (failed : next tree = .error fault) : Tree.change next tree = .error fault tree := by
  rw [Tree.change, failed]

theorem overwrite_of_error {path : String} {bytes : ByteArray} {fault : Fault}
    (failed : tree.overwrite path bytes = .error fault) :
    (FileStore.overwrite path bytes : TreeM Unit) tree = .error fault tree := change_of_error failed

end TreeM

namespace Tree

variable {paths more : List Path} {before middle after : Tree} {location : List String}

/-- Nothing is gone or changed, and what is new are directories that some paths lead to. -/
structure Grows (paths : List Path) (before after : Tree) : Prop where
  working : after.working = before.working
  entries : ∀ location, after.entry? location = before.entry? location ∨
    before.entry? location = none ∧ after.entry? location = some .directory ∧
      ∃ path ∈ paths, after.locate path.toString = .ok location

namespace Grows

theorem refl (tree : Tree) : Grows paths tree tree := ⟨rfl, fun _ => .inl rfl⟩

theorem keepsDirectories (grows : Grows paths before after) : KeepsDirectories before after := by
  refine ⟨grows.working, fun location found => ?_⟩
  rcases grows.entries location with same | ⟨-, made, -⟩
  · rw [same, found]
  · exact made

theorem mono (grows : Grows paths before after) (fewer : paths ⊆ more) :
    Grows more before after := by
  refine ⟨grows.working, fun location => (grows.entries location).imp_right ?_⟩
  rintro ⟨missing, made, path, listed, leads⟩
  exact ⟨missing, made, path, fewer listed, leads⟩

theorem trans (first : Grows paths before middle) (second : Grows paths middle after) :
    Grows paths before after := by
  refine ⟨second.working.trans first.working, fun location => ?_⟩
  rcases first.entries location with same | ⟨missing, made, path, listed, leads⟩
  · rw [← same]
    exact second.entries location
  · exact .inr ⟨missing, second.keepsDirectories.directory location made, path, listed,
      second.keepsDirectories.locate_eq leads⟩

end Grows

end Tree

namespace TreeM

open NodeSmith.Tree (Grows)

variable {α β : Type} {paths more : List Path}

/-- Whatever comes of work, it only adds directories that some paths lead to. -/
def Adds (paths : List Path) (work : TreeM α) : Prop := ∀ tree, Grows paths tree (left (work tree))

namespace Adds

theorem mono {work : TreeM α} (adds : Adds paths work) (fewer : paths ⊆ more) : Adds more work :=
  fun tree => (adds tree).mono fewer

theorem pure (value : α) : Adds paths (Pure.pure value : TreeM α) := fun tree => .refl tree

theorem throw (fault : Fault) : Adds paths (MonadExcept.throw fault : TreeM α) :=
  fun tree => .refl tree

theorem bind {work : TreeM α} {next : α → TreeM β} (adds : Adds paths work)
    (further : ∀ value, Adds paths (next value)) : Adds paths (work >>= next) := by
  intro tree
  have here := adds tree
  cases ran : work tree with
  | ok value middle =>
    rw [ran] at here
    rw [bind_of_ok next ran]
    exact here.trans (further value middle)
  | error fault middle =>
    rw [ran] at here
    rw [bind_of_error next ran]
    exact here

theorem tryCatch {work : TreeM α} {handler : Fault → TreeM α} (adds : Adds paths work)
    (handles : ∀ fault, Adds paths (handler fault)) :
    Adds paths (MonadExcept.tryCatch work handler) := by
  intro tree
  have here := adds tree
  cases ran : work tree with
  | ok value middle =>
    rw [ran] at here
    rw [tryCatch_of_ok handler ran]
    exact here
  | error fault middle =>
    rw [ran] at here
    rw [tryCatch_of_error handler ran]
    exact here.trans (handles fault middle)

end Adds

end TreeM

namespace Tree

variable {paths : List Path} {before after : Tree} {location : List String}

/-- Two trees differ in nothing but a file, which may be new. -/
structure Writes (goal : List String) (bytes : ByteArray) (before after : Tree) : Prop where
  working : after.working = before.working
  free : before.entry? goal ≠ some .directory
  file : after.entry? goal = some (.file bytes)
  others : ∀ other, other ≠ goal → after.entry? other = before.entry? other

theorem Writes.keepsDirectories {goal : List String} {bytes : ByteArray}
    (writes : Writes goal bytes before after) : KeepsDirectories before after := by
  refine ⟨writes.working, fun location found => ?_⟩
  rw [writes.others location, found]
  rintro rfl
  exact writes.free found

end Tree

namespace Publication

open TreeM (Adds)
open NodeSmith.Tree (Grows Writes)

variable {paths : List Path}

/-- The text passes the check, if there is one. -/
def Accepts (check : Option Check) (content : String) : Prop :=
  ∀ applied, check = some applied → applied content = .ok ()

variable {check : Option Check} {content : String}

theorem verify_of_accepts (accepts : Accepts check content) (tree : Tree) :
    (verify check content : TreeM Unit) tree = .ok () tree := by
  cases check with
  | none => rfl
  | some applied =>
    rw [verify]
    simp only [accepts applied rfl]
    rfl

theorem verify_of_not_accepts (refuses : ¬Accepts check content) :
    ∃ fault, ∀ tree, (verify check content : TreeM Unit) tree = .error fault tree := by
  cases check with
  | none => exact absurd nofun refuses
  | some applied =>
    cases given : applied content with
    | ok => exact absurd (fun other same => by rw [← Option.some.inj same, given]) refuses
    | error reason =>
      refine ⟨.rejected reason, fun tree => ?_⟩
      simp only [verify, given]
      rfl

theorem encode_of_encodes {bytes : ByteArray} (encodes : Text.Encodes content bytes)
    (tree : Tree) : (encode content : TreeM ByteArray) tree = .ok bytes tree := by
  simp only [encode, Text.encode_of_encodes encodes]
  rfl

theorem encode_of_halved (halved : Text.Halved content) (tree : Tree) :
    (encode content : TreeM ByteArray) tree = .error .unencodable tree := by
  simp only [encode, Text.encode_of_halved halved]
  rfl

section Straight

variable {target : Path} {tree : Tree} {goal : List String} {bytes : ByteArray}
  (accepts : Accepts check content)
include accepts

theorem overwriteFile_of_opens (opens : tree.Opens target.toString goal)
    (encodes : Text.Encodes content bytes) :
    (overwriteFile check target content : TreeM Unit) tree =
      .ok () (tree.put goal (.file bytes)) := by
  have opened : tree.overwrite target.toString .empty = .ok (tree.put goal (.file .empty)) :=
    Tree.overwrite_eq_ok_iff.mpr ⟨goal, opens, rfl⟩
  have filled : Tree.overwrite (tree.put goal (.file .empty)) target.toString bytes =
      .ok (tree.put goal (.file bytes)) :=
    Tree.overwrite_eq_ok_iff.mpr ⟨goal, opens.put _, (Tree.put_put _ _).symm⟩
  rw [overwriteFile, TreeM.bind_of_ok _ (verify_of_accepts accepts tree),
    TreeM.bind_of_ok _ (TreeM.overwrite_of_ok opened),
    TreeM.bind_of_ok _ (encode_of_encodes encodes _)]
  exact TreeM.overwrite_of_ok filled

theorem overwriteFile_of_error {fault : Fault}
    (failed : tree.overwrite target.toString .empty = .error fault) :
    (overwriteFile check target content : TreeM Unit) tree = .error fault tree := by
  rw [overwriteFile, TreeM.bind_of_ok _ (verify_of_accepts accepts tree),
    TreeM.bind_of_error _ (TreeM.overwrite_of_error failed)]

end Straight

/-- Fills a copy and puts it in the place of its target, or removes it. -/
def settle (check : Option Check) (content staged target : String) : TreeM Unit :=
  tryCatch
    (do
      FileStore.overwrite staged (← encode content)
      verify check content
      FileStore.replace staged target)
    fun fault => do
      FileStore.remove staged
      throw fault

/-- A tree with a new file in it, to which a path leads. -/
structure Copied (staged : String) (location : List String) (bytes : ByteArray)
    (tree copied : Tree) : Prop where
  leads : tree.locate staged = .ok location
  free : tree.entry? location = none
  put : copied = tree.put location (.file bytes)

namespace Copied

variable {staged target : String} {tree copied after : Tree} {location : List String}
  {bytes : ByteArray}

theorem not_directory (copy : Copied staged location bytes tree copied) :
    tree.entry? location ≠ some .directory := by
  rw [copy.free]
  exact nofun

theorem file (copy : Copied staged location bytes tree copied) :
    copied.entry? location = some (.file bytes) := by
  rw [copy.put, Tree.entry?_put (Tree.ne_nil_of_not_directory copy.not_directory), if_pos rfl]

theorem keepsDirectories (copy : Copied staged location bytes tree copied) :
    Tree.KeepsDirectories tree copied := by
  rw [copy.put]
  exact Tree.keepsDirectories_put copy.not_directory

theorem erase_eq (copy : Copied staged location bytes tree copied) :
    copied.erase location = tree := by
  rw [copy.put, Tree.erase_put copy.free]

theorem overwrite_eq (copy : Copied staged location bytes tree copied) (filling : ByteArray) :
    copied.overwrite staged filling = .ok (tree.put location (.file filling)) := by
  have opens : tree.Opens staged location := ⟨copy.leads, copy.not_directory⟩
  rw [copy.put]
  exact Tree.overwrite_eq_ok_iff.mpr ⟨location, opens.put _, (Tree.put_put _ _).symm⟩

theorem filled (copy : Copied staged location bytes tree copied) (filling : ByteArray) :
    Copied staged location filling tree (tree.put location (.file filling)) :=
  ⟨copy.leads, copy.free, rfl⟩

/-- Whatever fails once there is a copy, it is removed. -/
theorem settle_eq_error {filling : ByteArray} {middle : Tree}
    (copy : Copied staged location filling tree middle) {fault : Fault}
    (failed : (do
      FileStore.overwrite staged (← encode content)
      verify check content
      FileStore.replace staged target : TreeM Unit) copied = .error fault middle) :
    settle check content staged target copied = .error fault tree := by
  have removed : (FileStore.remove staged : TreeM Unit) middle =
      .ok () (middle.erase location) :=
    TreeM.change_of_ok
      (Tree.remove_eq (copy.keepsDirectories.locate_eq copy.leads) copy.file)
  rw [copy.erase_eq] at removed
  rw [settle, TreeM.tryCatch_of_error _ failed, TreeM.bind_of_ok _ removed]
  rfl

/-- A content that cannot be encoded does not even come to its check. -/
theorem settle_of_halved (copy : Copied staged location bytes tree copied)
    (halved : Text.Halved content) :
    settle check content staged target copied = .error .unencodable tree := by
  apply copy.settle_eq_error
  rw [TreeM.bind_of_error _ (encode_of_halved halved copied)]

/-- Once a copy is filled, its check and its move are left. -/
theorem filling_eq (copy : Copied staged location bytes tree copied) (check : Option Check)
    (target : String) {filling : ByteArray} (encodes : Text.Encodes content filling) :
    (do
      FileStore.overwrite staged (← encode content)
      verify check content
      FileStore.replace staged target : TreeM Unit) copied =
    (do
      verify check content
      FileStore.replace staged target : TreeM Unit) (tree.put location (.file filling)) := by
  rw [TreeM.bind_of_ok _ (encode_of_encodes encodes copied),
    TreeM.bind_of_ok _ (TreeM.overwrite_of_ok (copy.overwrite_eq filling))]

end Copied

end Publication

end NodeSmith
