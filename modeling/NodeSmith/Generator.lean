import NodeSmith.SourceFile

set_option autoImplicit false

namespace NodeSmith

/-- What generations start from, and the tables that the latest one left. -/
structure Generator where
  schema : Json
  settings : Settings := {}
  /-- The tables of the latest catalog; a generation that fails later leaves them. -/
  tables : Option Tables := none

namespace Generator

def text (generator : Generator) : Except Fault String := do
  SourceFile.text generator.settings (← Catalog.ofSchema generator.schema)

/-- Generates the text and keeps the tables of the catalog it came from. -/
def generate (generator : Generator) : Except Fault String × Generator :=
  match Catalog.ofSchema generator.schema with
  | .error fault => (.error fault, generator)
  | .ok catalog =>
    (SourceFile.text generator.settings catalog, { generator with tables := some catalog.tables })

def addRecord (generator : Generator) (record : Json) : Except Fault Generator :=
  match generator.schema with
  | .list records => .ok { generator with schema := .list (records ++ [record]) }
  | _ => .error .notList

theorem generate_fst (generator : Generator) : generator.generate.1 = generator.text := by
  simp only [generate, text]
  cases Catalog.ofSchema generator.schema <;> rfl

end Generator

end NodeSmith
