import NodeSmith.Assoc
import NodeSmith.Files.Path
import NodeSmith.Files.Store

set_option autoImplicit false

namespace NodeSmith

inductive TreeEntry
  | directory
  | file (bytes : ByteArray)

/-- A tree of directories and files as a table from locations to entries, and the directory that
relative paths start in. A location is the list of names from the root down; the root itself is a
directory that the table does not list. -/
structure Tree where
  working : List String
  entries : List (List String × TreeEntry)

/-- A computation on a tree. What was done before a fault stays done. -/
abbrev TreeM := EStateM Fault Tree

namespace Tree

def entry? (tree : Tree) (location : List String) : Option TreeEntry :=
  if location = [] then some .directory else Assoc.get? tree.entries location

def put (tree : Tree) (location : List String) (entry : TreeEntry) : Tree :=
  { tree with entries := Assoc.insert tree.entries location entry }

def erase (tree : Tree) (location : List String) : Tree :=
  { tree with entries := tree.entries.filter fun entry => entry.1 != location }

/-- One step from a directory that is there. -/
def descend (location : List String) (name : String) : List String :=
  if name = "" || name = "." then location
  else if name = ".." then location.dropLast
  else location ++ [name]

def nameLimit : Nat := 255

def pathLimit : Nat := 4095

/-- Follows names from a location on, each from a directory that is there. The last one need not
lead to anything. A name is looked at only when the walk comes to it. -/
def follow (tree : Tree) (location : List String) : List String → Except Fault (List String)
  | [] => .ok location
  | name :: rest =>
    match tree.entry? location with
    | some .directory =>
      if nameLimit < Text.size name then .error .nameTooLong
      else follow tree (descend location name) rest
    | some (.file _) => .error .notDirectory
    | none => .error .missing

/-- The location that a path leads to. The empty path leads nowhere. -/
def locate (tree : Tree) (path : String) : Except Fault (List String) :=
  match Path.vet path with
  | .error fault => .error fault
  | .ok _ =>
    if path = "" then .error .missing
    else if pathLimit < Text.size path then .error .nameTooLong
    else
      tree.follow (if path.toList.head? = some '/' then [] else tree.working) (Path.pieces path)

def find (tree : Tree) (path : String) : Except Fault TreeEntry := do
  let location ← tree.locate path
  match tree.entry? location with
  | some entry => .ok entry
  | none => .error .missing

def kind? (tree : Tree) (path : String) : Option EntryKind :=
  match tree.find path with
  | .ok .directory => some .directory
  | .ok (.file _) => some .file
  | .error _ => none

def read (tree : Tree) (path : String) : Except Fault ByteArray := do
  match ← tree.find path with
  | .file bytes => .ok bytes
  | .directory => .error .isDirectory

def createDirectory (tree : Tree) (path : String) : Except Fault Tree := do
  let location ← tree.locate path
  match tree.entry? location with
  | some _ => .error .alreadyExists
  | none => .ok (tree.put location .directory)

/-- The paths that a staged file may take, spelled from the root: one more than there are entries,
so that one is free. -/
def stagedPaths (tree : Tree) (location : List String) (hint : String) : List String :=
  (List.range (tree.entries.length + 1)).map fun number =>
    Path.toString ⟨"/", location ++ [FileStore.stagedName hint number]⟩

/-- The tree with a new empty file in a directory, and the path of that file. However the directory
was spelled, the length of the new path counts from where it leads. -/
def stage (tree : Tree) (directory hint : String) : Except Fault (String × Tree) := do
  let folder ← tree.locate directory
  match (tree.stagedPaths folder hint).find? fun path => (tree.kind? path).isNone with
  | none => .error .alreadyExists
  | some path =>
    let location ← tree.locate path
    .ok (path, tree.put location (.file .empty))

/-- Whether a path ends in a name of its own: the last piece is no step up and none that stays in
place. -/
def endsInName (path : String) : Bool :=
  match (Path.pieces path).getLast? with
  | some name => name != "" && name != "." && name != ".."
  | none => false

def replace (tree : Tree) (source target : String) : Except Fault Tree := do
  let bytes ← tree.read source
  let start ← tree.locate source
  let goal ← tree.locate target
  if !endsInName target then .error .busy
  else
    match tree.entry? goal with
    | some .directory => .error .isDirectory
    | _ => .ok ((tree.erase start).put goal (.file bytes))

def remove (tree : Tree) (path : String) : Except Fault Tree := do
  let location ← tree.locate path
  match tree.entry? location with
  | some (.file _) => .ok (tree.erase location)
  | some .directory => .error .isDirectory
  | none => .error .missing

def overwrite (tree : Tree) (path : String) (bytes : ByteArray) : Except Fault Tree := do
  let location ← tree.locate path
  match tree.entry? location with
  | some .directory => .error .isDirectory
  | _ => .ok (tree.put location (.file bytes))

/-- Carries a change out, or leaves the tree as it is. -/
def change (next : Tree → Except Fault Tree) : TreeM Unit := fun tree =>
  match next tree with
  | .ok changed => .ok () changed
  | .error fault => .error fault tree

instance : FileStore TreeM where
  kind? path := fun tree => .ok (tree.kind? path) tree
  read path := fun tree =>
    match tree.read path with
    | .ok bytes => .ok bytes tree
    | .error fault => .error fault tree
  createDirectory path := change fun tree => tree.createDirectory path
  stage directory hint := fun tree =>
    match tree.stage directory hint with
    | .ok (path, changed) => .ok path changed
    | .error fault => .error fault tree
  replace source target := change fun tree => tree.replace source target
  remove path := change fun tree => tree.remove path
  overwrite path bytes := change fun tree => tree.overwrite path bytes

end Tree

end NodeSmith
