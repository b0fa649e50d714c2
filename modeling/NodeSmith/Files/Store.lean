import NodeSmith.Fault

set_option autoImplicit false

namespace NodeSmith

inductive EntryKind
  | file
  | directory
  deriving DecidableEq, Repr

/-- A file system. The operations fail with a `Fault`, and what was done before stays. -/
class FileStore (m : Type → Type) where
  /-- What a path leads to, if it leads to anything. -/
  kind? : String → m (Option EntryKind)
  /-- The bytes of a file. -/
  read : String → m ByteArray
  /-- Makes a directory whose parent is there. -/
  createDirectory : String → m Unit
  /-- Makes a new empty file in a directory, under a name that nothing has; the second text is in
  the name. Gives back the path of the new file. -/
  stage : String → String → m String
  /-- Moves a staged file to a path, in the place of a file that is there. -/
  replace : String → String → m Unit
  /-- Removes a file. -/
  remove : String → m Unit
  /-- Writes bytes to a path, in the place of a file that is there. -/
  overwrite : String → ByteArray → m Unit

/-- The name of a staged file: hidden, with a given text in it and a number of eight digits or
more. -/
def FileStore.stagedName (hint : String) (number : Nat) : String :=
  let digits := toString number
  "." ++ hint ++ "." ++ String.ofList (List.replicate (8 - digits.length) '0') ++ digits ++ ".tmp"

end NodeSmith
