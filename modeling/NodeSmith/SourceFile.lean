import NodeSmith.Factory
import NodeSmith.Text.Break
import NodeSmith.Visitor

set_option autoImplicit false

namespace NodeSmith.SourceFile

open Layout (Code Command Cursor)

/-- The lines above the module: the mark of generated files, the comment if there is one, and a
line for each file that is referred to. -/
def preambleLines (settings : Settings) (references : List Json) : List String :=
  "// <auto-generated />" ::
    (if settings.comment.present then ["// " ++ settings.comment.display] else []) ++
    references.map fun reference => "/// <reference path=\"" ++ reference.display ++ "\"/>"

/-- The text above the module, without line breaks at its end. -/
def preambleText (settings : Settings) : Except Fault String := do
  let references ← settings.references.items
  return Text.dropTrailingBreaks ("\n".intercalate (preambleLines settings references))

def moduleLine (settings : Settings) : String := "module " ++ settings.moduleName.display ++ " \x7b"

def opening (settings : Settings) : Except Fault (List Command) := do
  let preamble ← preambleText settings
  return Code.commandsOf [.line preamble, .blank, .line (moduleLine settings)] ++ [.indent]

def closing : List Command := .dedent :: Code.commandsOf [.line "\x7d"]

/-- The requests that lay out the whole file, with the factory in its parts. -/
def commands (settings : Settings) (catalog : Catalog) : Except Fault (List Command) := do
  let opening ← opening settings
  return opening ++ (Factory.parts settings catalog.definitions).flatMap Factory.Part.commands ++
    Code.commandsOf (Visitor.code settings catalog) ++ closing

def text (settings : Settings) (catalog : Catalog) : Except Fault String := do
  let commands ← commands settings catalog
  settings.style.text (({} : Cursor).run commands).2

def code (settings : Settings) (catalog : Catalog) : Except Fault (List Code) := do
  let preamble ← preambleText settings
  return [.line preamble, .blank, .line (moduleLine settings),
    .nested (Factory.code settings catalog.definitions ++ Visitor.code settings catalog),
    .line "\x7d"]

theorem commands_eq (settings : Settings) (catalog : Catalog) :
    commands settings catalog = (code settings catalog).map Code.commandsOf := by
  unfold commands opening code
  cases preambleText settings with
  | error fault => rfl
  | ok preamble =>
    change Except.ok _ = Except.ok _
    rw [Factory.parts_commands]
    simp only [closing, Code.commandsOf_cons, Code.commandsOf_nil, Code.commands,
      Code.commandsOf_append, List.append_assoc, List.cons_append, List.nil_append, List.append_nil]

/-- The text is that of the code, laid out as a whole. -/
theorem text_eq (settings : Settings) (catalog : Catalog) : text settings catalog =
    code settings catalog >>= fun code =>
      settings.style.text (({} : Cursor).run (Code.commandsOf code)).2 := by
  rw [text, commands_eq]
  cases code settings catalog <;> rfl

end NodeSmith.SourceFile
