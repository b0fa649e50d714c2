import NodeSmith.Json.Value
import NodeSmith.Layout.Token

set_option autoImplicit false

namespace NodeSmith

inductive Output
  | choices (atomic validated : Json)
  /-- A value without fields in place of the choices. -/
  | other (value : Json)

/-- The settings of a generation, with their defaults. Each holds the value it was given; a value of
the wrong form is a fault where it is used. -/
structure Settings where
  /-- The module around the factory and the visitor. -/
  moduleName : Json := .text "ts"
  factoryModule : Json := .text "Factory"
  visitorModule : Json := .text "Visitor"
  /-- The files that the preamble refers to. -/
  references : Json := .list [.text "parser.ts", .text "factory.ts"]
  /-- A line of comment below the mark of generated files. -/
  comment : Json := .text ""
  /-- The name of the generated file beside the schema. -/
  outputName : Json := .text "factory.generated.ts"
  indentUnit : Json := .text "    "
  newline : Json := .text "\n"
  output : Output := .choices (.bool true) (.bool false)

namespace Output

def ofFields (fields : List (String × Json)) : Output :=
  .choices ((Assoc.get? fields "atomic_write").getD (.bool true))
    ((Assoc.get? fields "validate_before_write").getD (.bool false))

def validated : Output → Except Fault Bool
  | choices _ validated => .ok validated.present
  | other _ => .error .notRecord

/-- Whether the file is replaced at once, by a finished copy. -/
def atomic : Output → Except Fault Bool
  | choices atomic _ => .ok atomic.present
  | other _ => .error .notRecord

def toJson : Output → Except Fault Json
  | choices atomic validated =>
    .ok (.record [("atomic_write", atomic), ("validate_before_write", validated)])
  | other _ => .error .notRecord

end Output

namespace Settings

/-- Gives a setting a value as it is. A name that is no setting changes nothing; what a name of the
record itself does is said by `Loaded.readField`. -/
def put (settings : Settings) (name : String) (value : Json) : Settings :=
  match name with
  | "module_name" => { settings with moduleName := value }
  | "factory_module" => { settings with factoryModule := value }
  | "visitor_module" => { settings with visitorModule := value }
  | "references" => { settings with references := value }
  | "generation_comment" => { settings with comment := value }
  | "output_filename" => { settings with outputName := value }
  | "indent_unit" => { settings with indentUnit := value }
  | "newline" => { settings with newline := value }
  | "output" => { settings with output := .other value }
  | _ => settings

/-- Reads one field of a settings record. -/
def readField (settings : Settings) (name : String) (value : Json) : Settings :=
  match name, value with
  | "output", .record fields => { settings with output := .ofFields fields }
  | _, _ => settings.put name value

def ofJson (value : Json) : Except Fault Settings := do
  let fields ← value.asRecord
  return fields.foldl (fun settings field => settings.readField field.1 field.2) {}

/-- Settings as far as they are read. -/
structure Loaded where
  settings : Settings := {}
  /-- Whether the references are gone, with the table that held them. -/
  unreferred : Bool := false

/-- The settings that a table holds which takes the place of their own. What it leaves out has its
default again, but for the references and the choices of the output, which only the table had. An
output that is gone is held as nothing, a fault where it is read. -/
def Loaded.ofTable (fields : List (String × Json)) : Loaded :=
  let bare : Settings := { references := .null, output := .other .null }
  { settings := fields.foldl (fun settings field => settings.put field.1 field.2) bare
    unreferred := (Assoc.get? fields "references").isNone }

/-- Reads one field of any record of settings. Among the names of settings there are three of the
record itself: its class, what refers to it, and its table. Only the last can be given a value, and
that has to be a table. -/
def Loaded.readField (loaded : Loaded) (name : String) (value : Json) : Except Fault Loaded :=
  let settings := loaded.settings.readField name value
  match name, value with
  | "__class__", _ => .error .notAssignable
  | "__weakref__", _ => .error .notWritable
  | "__dict__", .record fields => .ok (.ofTable fields)
  | "__dict__", _ => .error .notAssignable
  -- Settings are given to names that are there; this one may be gone.
  | "references", _ => .ok (if loaded.unreferred then loaded else { loaded with settings })
  | _, _ => .ok { loaded with settings }

/-- Reads settings from any record. Nothing is made of settings whose references are gone. -/
def load (value : Json) : Except Fault Settings := do
  let fields ← value.asRecord
  let loaded ← fields.foldlM (fun loaded field => loaded.readField field.1 field.2) ({} : Loaded)
  if loaded.unreferred then throw .unreferred else return loaded.settings

def toJson (settings : Settings) : Except Fault Json := do
  let output ← settings.output.toJson
  return .record [
    ("module_name", settings.moduleName),
    ("factory_module", settings.factoryModule),
    ("visitor_module", settings.visitorModule),
    ("references", settings.references),
    ("generation_comment", settings.comment),
    ("output_filename", settings.outputName),
    ("indent_unit", settings.indentUnit),
    ("newline", settings.newline),
    ("output", output)]

def style (settings : Settings) : Layout.Style := ⟨settings.indentUnit, settings.newline⟩

end Settings

end NodeSmith
