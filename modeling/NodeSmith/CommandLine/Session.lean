import NodeSmith.CommandLine.Invocation
import NodeSmith.Files.Publication
import NodeSmith.Generator
import NodeSmith.Json.Reader
import NodeSmith.Text.Control

set_option autoImplicit false

namespace NodeSmith.Session

/-- How a session without a fault ends: with a text for the reader, or because the command line
breaks the rules. -/
inductive Ending
  | shown (text : String)
  | misused
  deriving DecidableEq, Repr

def status : Except Fault Ending → UInt32
  | .ok (.shown _) => 0
  | .ok .misused => 2
  | .error _ => 1

def usage : String := "Usage:\n\tsyntax_factory <syntax-json-input-file>\n"

def outputPath (settings : Settings) (schema : String) : Except Fault Path := do
  let name ← settings.outputName.asText
  return (Path.ofString schema).parent.join (Path.ofString name)

def targetPath (invocation : Invocation) (settings : Settings) (schema : String) :
    Except Fault Path :=
  match invocation.output with
  | some written => .ok (Path.ofString written)
  | none => outputPath settings schema

/-- The path of a settings file with its steps up taken back. -/
def settingsPath (written : String) : String := (Path.ofString written).collapse.toString

/-- The report of a generation. A control sequence in the path does not reach the reader. -/
def report (tables : Tables) (target : Path) : String :=
  Text.removeControls ("Generated " ++ toString tables.kinds.length ++ " node kinds -> " ++
    target.toString ++ "\n")

variable {m : Type → Type} [Monad m] [MonadExceptOf Fault m] [FileStore m]

def ofExcept {α : Type} : Except Fault α → m α
  | .ok value => pure value
  | .error fault => throw fault

def namesDirectory : Option String → m Bool
  | none => pure false
  | some path => do return (← FileStore.kind? path) == some .directory

def namesNothing : Option String → m Bool
  | none => pure false
  | some path => do return (← FileStore.kind? path) == none

/-- Whether the files that an invocation names break its rules. -/
def misnamed (invocation : Invocation) : m Bool := do
  let nothing ← namesNothing (invocation.settings.map settingsPath)
  let output ← namesDirectory invocation.output
  let schema ← namesDirectory invocation.operands.head?
  return nothing || output || schema

def readDocument (path : String) : m Json := do
  ofExcept (Json.ofBytes (← FileStore.read path))

def readSettings : Option String → m Settings
  | none => pure {}
  | some written => do ofExcept (Settings.load (← readDocument (settingsPath written)))

/-- Generates and publishes. The settings of the output are not looked at before the text is
there. -/
def publish (settings : Settings) (schema : Json) (target : Path) : m Tables := do
  let catalog ← ofExcept (Catalog.ofSchema schema)
  let content ← ofExcept (SourceFile.text settings catalog)
  let validated ← ofExcept settings.output.validated
  let atomic ← ofExcept settings.output.atomic
  let check := if validated then some Publication.wellBraced else none
  if atomic then Publication.replaceFile check target content
  else Publication.overwriteFile check target content
  return catalog.tables

def generate (invocation : Invocation) (schemaPath : String) : m Ending := do
  let schema ← readDocument schemaPath
  let settings ← readSettings invocation.settings
  let target ← ofExcept (targetPath invocation settings schemaPath)
  let tables ← publish settings schema target
  return .shown (if invocation.verbose then report tables target else "")

/-- Serves a command line. The system gives no argument that it would not take back in a path. -/
def run (arguments : List String) : m Ending := do
  match Invocation.ofArguments arguments with
  | none => return .misused
  | some invocation =>
    if invocation.help then return .shown usage
    else if ← misnamed invocation then return .misused
    else
      match invocation.operands with
      | [] => return .shown usage
      | [path] => generate invocation path
      | _ => return .misused

end NodeSmith.Session
