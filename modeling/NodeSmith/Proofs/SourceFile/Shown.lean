import NodeSmith.Proofs.Dispatch
import NodeSmith.SourceFile

set_option autoImplicit false

namespace NodeSmith

/-- What a file shows of a definition. -/
def Definition.shown (definition : Definition) : Definition :=
  { definition with types := .null, baseType := .null }

def Definition.shownOf (definitions : List Definition) : List Definition :=
  (definitions.filter creatable).map shown

open Definition (shownOf)

namespace DispatchGroup

def shown (group : DispatchGroup) : DispatchGroup :=
  { group with members := group.members.map Definition.shown }

theorem ofDefinitions_shownOf (definitions : List Definition) :
    ofDefinitions (shownOf definitions) = (ofDefinitions definitions).map shown := by
  induction definitions with
  | nil => rfl
  | cons definition rest ih =>
    by_cases creatable : definition.creatable = true
    · have listed : shownOf (definition :: rest) = definition.shown :: shownOf rest := by
        rw [shownOf, List.filter_cons_of_pos creatable, List.map_cons, ← shownOf]
      have kept : definition.shown.creatable = true := creatable
      have same : definition.shown.updatable = definition.updatable := rfl
      rw [listed, ofDefinitions, ofDefinitions, ih]
      simp only [kept, creatable, same, Bool.not_true, Bool.false_eq_true, ↓reduceIte]
      split
      · rfl
      · cases ofDefinitions rest with
        | nil => rfl
        | cons group more =>
          obtain ⟨updatable, run⟩ := group
          cases updatable <;> rfl
    · have listed : shownOf (definition :: rest) = shownOf rest := by
        rw [shownOf, List.filter_cons_of_neg creatable, ← shownOf]
      rw [listed, ofDefinitions, ih]
      simp only [creatable, Bool.not_false, ↓reduceIte]

end DispatchGroup

namespace Factory

theorem code_shownOf (settings : Settings) (definitions : List Definition) :
    code settings (shownOf definitions) = code settings definitions := by
  have same : (shownOf definitions).flatMap functions = definitions.flatMap functions := by
    induction definitions with
    | nil => rfl
    | cons definition rest ih =>
      by_cases creatable : definition.creatable = true
      · have kept : functions definition.shown = functions definition := rfl
        rw [shownOf, List.filter_cons_of_pos creatable, List.map_cons, ← shownOf,
          List.flatMap_cons, ih, kept, List.flatMap_cons]
      · have none : functions definition = [] := by
          simp only [functions, create?, update?, Definition.updatable, creatable,
            Bool.false_eq_true, ↓reduceIte, Bool.false_and]
          rfl
        rw [shownOf, List.filter_cons_of_neg creatable, ← shownOf, ih, List.flatMap_cons, none,
          List.nil_append]
  rw [code, same, code]

end Factory

namespace Visitor

theorem cases_shown (settings : Settings) (tables : Tables) (group : DispatchGroup) :
    cases settings tables group.shown = cases settings tables group := by
  obtain ⟨updatable, members⟩ := group
  have labels : (members.map Definition.shown).map label = members.map label := by
    rw [List.map_map]
    rfl
  have bodies : body settings tables (DispatchGroup.shown ⟨updatable, members⟩) =
      body settings tables ⟨updatable, members⟩ := by
    cases members <;> rfl
  rw [cases, bodies, cases, DispatchGroup.shown, labels]

theorem cases_congr {first second : Tables} (settings : Settings)
    (same : ∀ type, first.isNodeType type = second.isNodeType type) :
    cases settings first = cases settings second := by
  have visited : visitedArgument first = visitedArgument second := by
    funext definition member
    rw [visitedArgument, visitedArgument, same]
  have rebuilt : rebuild settings first = rebuild settings second := by
    funext definition
    rw [rebuild, rebuildArguments, visited, rebuild, rebuildArguments]
  funext group
  rw [cases, body, rebuilt, cases, body]

theorem code_congr {first second : Catalog} (settings : Settings)
    (definitions : shownOf first.definitions = shownOf second.definitions)
    (types : ∀ type, first.tables.isNodeType type = second.tables.isNodeType type) :
    code settings first = code settings second := by
  have spelled (catalog : Catalog) :
      (DispatchGroup.ofDefinitions catalog.definitions).flatMap (cases settings catalog.tables) =
        (DispatchGroup.ofDefinitions (shownOf catalog.definitions)).flatMap
          (cases settings catalog.tables) := by
    rw [DispatchGroup.ofDefinitions_shownOf, List.flatMap_map]
    simp only [cases_shown]
  have dispatch : (DispatchGroup.ofDefinitions first.definitions).flatMap
        (cases settings first.tables) =
      (DispatchGroup.ofDefinitions second.definitions).flatMap (cases settings second.tables) := by
    rw [spelled first, definitions, cases_congr settings types, ← spelled second]
  rw [code, accept, dispatch, code, accept]

end Visitor

/-- Catalogs that show the same definitions, and know the same types, have the same file. -/
theorem SourceFile.text_congr {first second : Catalog} (settings : Settings)
    (definitions : shownOf first.definitions = shownOf second.definitions)
    (types : ∀ type, first.tables.isNodeType type = second.tables.isNodeType type) :
    text settings first = text settings second := by
  have factory : Factory.code settings first.definitions =
      Factory.code settings second.definitions := by
    rw [← Factory.code_shownOf, definitions, Factory.code_shownOf]
  rw [text_eq, code, factory, Visitor.code_congr settings definitions types, text_eq, code]

end NodeSmith
