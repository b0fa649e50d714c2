import NodeSmith.Text.Point

set_option autoImplicit false

namespace NodeSmith

/-- A path as a root and the names from there. -/
structure Path where
  /-- Empty for a relative path, and one or two slashes for an absolute one. -/
  root : String := ""
  /-- The names, without empty ones and without steps that stay in place. -/
  names : List String := []
  deriving DecidableEq, Repr

namespace Path

def pieces (text : String) : List String := (text.toList.splitOn '/').map String.ofList

/-- The root of a path. Exactly two slashes are a root of their own; more count as one. -/
def rootOf (text : String) : String :=
  match text.toList.takeWhile (· == '/') with
  | [] => ""
  | [_, _] => "//"
  | _ => "/"

def ofString (text : String) : Path :=
  { root := rootOf text, names := (pieces text).filter fun name => name != "" && name != "." }

/-- The spelling of a path. The empty relative path is a dot. -/
def toString (path : Path) : String :=
  if path.root = "" && path.names.isEmpty then "."
  else path.root ++ "/".intercalate path.names

/-- The path without its last name. A path without names is its own parent. -/
def parent (path : Path) : Path := { path with names := path.names.dropLast }

/-- Refuses what cannot be handed to the system as a path, before any file is looked at. The names in
a tree are texts, so the halves that stand for bytes of a name that is no text are refused too. -/
def vet (text : String) : Except Fault Unit :=
  let points := Text.points text.toList
  if points.any Text.isHalf then .error .unencodable
  else if points.contains 0 then .error .embeddedNull
  else .ok ()

def name (path : Path) : String := path.names.getLast?.getD ""

/-- A path from another one on; an absolute path does not depend on where it starts. -/
def join (path further : Path) : Path :=
  if further.root = "" then { path with names := path.names ++ further.names } else further

/-- Names with every step up taken back together with the name before it; `done` holds the names
so far, last one first. At a root there is nothing above. -/
def collapseNames (absolute : Bool) : List String → List String → List String
  | done, [] => done.reverse
  | done, name :: rest =>
    if name = ".." then
      match done with
      | [] => collapseNames absolute (if absolute then [] else [".."]) rest
      | last :: before =>
        if last = ".." then collapseNames absolute (".." :: done) rest
        else collapseNames absolute before rest
    else collapseNames absolute (name :: done) rest

def collapse (path : Path) : Path :=
  { path with names := collapseNames (path.root != "") [] path.names }

end Path

end NodeSmith
