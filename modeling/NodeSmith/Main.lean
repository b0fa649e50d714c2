import NodeSmith.CommandLine.Session

set_option autoImplicit false

namespace NodeSmith.Console

abbrev ConsoleM := EIO Fault

def faultOf : IO.Error → Fault
  | .noFileOrDirectory _ _ _ => .missing
  | .alreadyExists _ _ _ => .alreadyExists
  | .inappropriateType _ _ _ => .notDirectory
  | _ => .busy

def attempt {α : Type} (action : IO α) : ConsoleM α := action.toEIO faultOf

def outer (path : String) : ConsoleM String := do
  Session.ofExcept (Path.vet path)
  Session.ofExcept (Text.release path)

def attemptAt {α : Type} (path : String) (action : String → IO α) : ConsoleM α := do
  attempt (action (← outer path))

def succeedsAt {α : Type} (path : String) (action : String → IO α) : ConsoleM Bool :=
  tryCatch (do discard (attemptAt path action); return true) fun _ => return false

/-- What a path leads to. A directory can be opened like a file, but not read like one. -/
def kindOf (path : String) : ConsoleM (Option EntryKind) := do
  let opened (outer : String) : IO IO.FS.Handle := IO.FS.Handle.mk outer .read
  if ← succeedsAt path (fun outer => do (← opened outer).read 1) then return some .file
  else if ← succeedsAt path opened then return some .directory
  else return none

def refuseDirectory (path : String) : ConsoleM Unit := do
  if (← kindOf path) = some .directory then throw .isDirectory

instance : FileStore ConsoleM where
  kind? := kindOf
  read path := do
    refuseDirectory path
    attemptAt path fun outer => IO.FS.readBinFile outer
  createDirectory path := attemptAt path fun outer => IO.FS.createDir outer
  stage directory hint := do
    let moment ← attempt IO.monoNanosNow
    let name := FileStore.stagedName hint (moment % 100000000)
    let path := ((Path.ofString directory).collapse.join ⟨"", [name]⟩).toString
    discard (attemptAt path fun outer => IO.FS.Handle.mk outer .writeNew)
    return path
  replace source target := do
    refuseDirectory target
    let start ← outer source
    attemptAt target fun goal => IO.FS.rename start goal
  remove path := attemptAt path fun outer => IO.FS.removeFile outer
  overwrite path bytes := do
    refuseDirectory path
    attemptAt path fun outer => IO.FS.writeBinFile outer bytes

end NodeSmith.Console

open NodeSmith in
def main (arguments : List String) : IO UInt32 := do
  let session : Console.ConsoleM Session.Ending := Session.run (arguments.map Text.hold)
  let outcome ← session.toBaseIO
  match outcome with
  | .ok (.shown text) => IO.print ((Text.release text).toOption.getD "")
  | .ok .misused => IO.eprint Session.usage
  | .error fault => IO.eprintln fault.message
  return Session.status outcome
