import NodeSmith.Files.Path
import NodeSmith.Files.Store
import NodeSmith.Text.Blank

set_option autoImplicit false

namespace NodeSmith.Publication

/-- What has to hold of a text before it is published. -/
abbrev Check := String → Except Rejection Unit

/-- Generated code is not blank, and opens as many braces as it closes. -/
def wellBraced : Check := fun content =>
  let chars := content.toList
  if chars.all Text.isBlank then .error .empty
  else
    let opened := chars.count '{'
    let closed := chars.count '}'
    if opened = closed then .ok () else .error (.unbalanced opened closed)

def refuseAll (message : String) : Check := fun _ => .error (.refused message)

variable {m : Type → Type} [Monad m] [MonadExceptOf Fault m] [FileStore m]

def verify (check : Option Check) (content : String) : m Unit :=
  match check with
  | none => pure ()
  | some check =>
    match check content with
    | .ok _ => pure ()
    | .error reason => throw (.rejected reason)

def encode (content : String) : m ByteArray :=
  match Text.encode content with
  | .ok bytes => pure bytes
  | .error fault => throw fault

/-- Makes a directory unless it is there; what is to be done if its parent is missing is given. -/
def ensureDirectory (path : Path) (onMissing : m Unit) : m Unit :=
  tryCatch (FileStore.createDirectory path.toString) fun fault => do
    if fault = .missing then onMissing
    else if (← FileStore.kind? path.toString) = some .directory then pure ()
    else throw fault

/-- Makes a directory and those above it that are missing. The names come last one first. -/
def ensureNames (root : String) : List String → m Unit
  | [] => ensureDirectory ⟨root, []⟩ (throw .missing)
  | name :: above =>
    let path : Path := ⟨root, (name :: above).reverse⟩
    ensureDirectory path do
      ensureNames root above
      ensureDirectory path (throw .missing)

def ensureDirectories (path : Path) : m Unit := ensureNames path.root path.names.reverse

/-- Publishes through a copy beside the target. The copy is gone afterwards in any case, and the
target has changed only if nothing failed. -/
def replaceFile (check : Option Check) (target : Path) (content : String) : m Unit := do
  let directory := target.parent
  ensureDirectories directory
  let staged ← FileStore.stage directory.toString target.name
  tryCatch
    (do
      FileStore.overwrite staged (← encode content)
      verify check content
      FileStore.replace staged target.toString)
    fun fault => do
      FileStore.remove staged
      throw fault

/-- Publishes straight into the target, whose directory has to be there. -/
def overwriteFile (check : Option Check) (target : Path) (content : String) : m Unit := do
  verify check content
  -- The file is opened, which empties it, before the text is encoded.
  FileStore.overwrite target.toString .empty
  FileStore.overwrite target.toString (← encode content)

end NodeSmith.Publication
