import NodeSmith.Proofs.SourceFile.Values
import NodeSmith.Proofs.Text.Parts

set_option autoImplicit false

namespace NodeSmith

open Layout (Code Command)
open Text

def Layout.Command.lineText : Command → Option String
  | .line text => some text
  | .write _ | .indent | .dedent | .suspend | .resume => none

def Layout.Code.texts (codes : List Code) : List String :=
  (commandsOf codes).filterMap Command.lineText

theorem Layout.Code.texts_cons_line (text : String) (rest : List Code) :
    texts (.line text :: rest) = text :: texts rest := by
  rw [texts, commandsOf_cons, commands, List.singleton_append, List.filterMap_cons, texts]
  rfl

theorem Layout.Code.texts_cons_nested (body rest : List Code) :
    texts (.nested body :: rest) = texts body ++ texts rest := by
  rw [texts, commandsOf_cons, commands, List.filterMap_append, List.filterMap_append, texts, texts]
  exact congrArg (· ++ _) (List.append_nil _)

theorem Layout.Code.texts_map_line_append (lines : List String) (rest : List Code) :
    texts (lines.map .line ++ rest) = lines ++ texts rest := by
  induction lines with
  | nil => rfl
  | cons line lines ih =>
    rw [List.map_cons, List.cons_append, texts_cons_line, ih, List.cons_append]

theorem Layout.Code.texts_line_nested (text : String) (body : List Code) :
    texts [.line text, .nested body] = text :: texts body := by
  rw [texts_cons_line, texts_cons_nested]
  exact congrArg _ (List.append_nil _)

/-- White space, a comma or a parenthesis. -/
def isPunctuation (c : Char) : Bool := c == ',' || c == '(' || c == ')' || isBlank c

theorem lacks_of_plain {text : String} {c : Char} (plain : Free isPunctuation text)
    (mark : isPunctuation c = true) : Lacks c text := by
  apply plain.mono
  intro d same
  rw [beq_iff_eq] at same
  rw [same]
  exact mark

theorem Json.displayPresent_of_present {value : Json} (present : value.present = true) :
    value.displayPresent = value.display := by
  cases value with
  | null => cases present
  | bool | number | text | list | record => rfl

@[mk_iff]
structure Member.Plain (member : Member) : Prop where
  name_present : member.name.present = true
  name : Free isPunctuation member.name.display
  param_present : member.param.present = true
  param : Free isPunctuation member.param.display

@[mk_iff]
structure Definition.Plain (definition : Definition) : Prop where
  name_present : definition.name.present = true
  name : Free isPunctuation definition.name.display
  members : ∀ member ∈ definition.memberList, member.Plain

/-- No type has a comma with a blank after it. -/
structure Definition.TypesWhole (definition : Definition) : Prop where
  type : Apart ',' ' ' definition.type.display
  members : ∀ member ∈ definition.memberList, Apart ',' ' ' member.type.display

instance (member : Member) : Decidable member.Plain :=
  decidable_of_iff' _ (Member.plain_iff member)

instance (definition : Definition) : Decidable definition.Plain :=
  decidable_of_iff' _ (Definition.plain_iff definition)

/-- The lists in the functions of a definition: the parameters of its create function and of its
update function, the condition of the latter and what it hands on, and what the visitor updates a
node with. -/
structure CallTexts where
  created : String
  updated : String
  tested : String
  carried : String
  visited : String

/-- The lists stand in the functions as these are written. -/
structure CallTexts.Written (texts : CallTexts) (settings : Settings) (tables : Tables)
    (definition : Definition) : Prop where
  created : (Code.texts (Factory.createFunction definition)).head? =
    some ("export function create" ++ definition.name.display ++ "(" ++ texts.created ++ "): " ++
      definition.type.display ++ " \x7b")
  updated : Code.texts (Factory.updateFunction definition) =
    ["export function update" ++ definition.name.display ++ "(" ++ texts.updated ++ "): " ++
        definition.type.display ++ " \x7b",
      "if (" ++ texts.tested ++ ") \x7b",
      "return create" ++ definition.name.display ++ "(" ++ texts.carried ++ ");",
      "\x7d", "return node;", "\x7d"]
  visited : ∃ lines, Code.texts (Visitor.rebuild settings tables definition) =
      ("return " ++ settings.factoryModule.display ++ ".update" ++ definition.name.display ++
        "(") :: lines ∧
    "\n".intercalate lines = texts.visited ++ ");"

def Visitor.access (definition : Definition) (member : Member) : String :=
  "(<" ++ definition.type.display ++ ">node)." ++ member.name.display

/-- Lists of parameters and arguments that agree place by place. -/
structure CallsAgree (definition : Definition) (created updated tested carried visited :
    List String) : Prop where
  created_length : created.length = definition.memberList.length + 2
  carried_length : carried.length = created.length
  /-- A read-only member is carried over from the old node, and any other by the parameter that the
  update function has for it. -/
  members : ∀ (i : Nat) (member : Member), definition.memberList[i]? = some member → ∃ param,
    created[i]? = some (param ++ (if member.optional then "?" else "") ++ ": " ++
      Factory.declaredType member) ∧
    carried[i]? = some (if member.readOnly then "node." ++ member.name.display else param) ∧
    (member.readOnly = false → param ++ ": " ++ Factory.declaredType member ∈ updated)
  created_last : created.drop definition.memberList.length =
    ["location?: TextRange", "flags?: NodeFlags"]
  carried_last : carried.drop definition.memberList.length = ["node", "node.flags"]
  updated_length : updated.length = definition.mutableMembers.length + 1
  tested_length : tested.length + 1 = updated.length
  visited_length : visited.length = updated.length
  node : updated[0]? = some ("node: " ++ definition.type.display) ∧
    visited[0]? = some ("<" ++ definition.type.display ++ ">node")
  /-- A parameter of the update function is compared with the field of its own member, and the
  visitor passes the old value of that member for it, visited or not. -/
  mutables : ∀ (i : Nat) (member : Member), definition.mutableMembers[i]? = some member →
    ∃ param argument,
      updated[i + 1]? = some (param ++ ": " ++ Factory.declaredType member) ∧
      tested[i]? = some ("node." ++ member.name.display ++ " !== " ++ param) ∧
      visited[i + 1]? = some argument ∧
      (argument = Visitor.access definition member ∨ ∃ visit ∈ ["visit", "visitNodes"],
        argument = visit ++ "<" ++ member.type.display ++ ">(" ++
          Visitor.access definition member ++ ", cbNode, state)")

namespace Factory

open Visitor (rebuildArguments commaLines)

variable {definition : Definition}

theorem callsAgree (plain : definition.Plain) (tables : Tables) :
    CallsAgree definition (createParameters definition) (updateParameters definition)
      (definition.mutableMembers.map changeTest) (carriedArguments definition)
      (rebuildArguments tables definition) := by
  constructor
  case created_length =>
    rw [createParameters, List.length_append, List.length_map]
    rfl
  case carried_length =>
    rw [createParameters, carriedArguments, List.length_append, List.length_append,
      List.length_map, List.length_map]
    rfl
  case members =>
    intro i member found
    have listed := List.mem_of_getElem? found
    have inside := (List.getElem?_eq_some_iff.mp found).1
    refine ⟨member.param.display, ?_, ?_, ?_⟩
    · rw [createParameters, List.getElem?_append_left (by rwa [List.length_map]),
        List.getElem?_map, found, Option.map_some, createParameter,
        Json.displayPresent_of_present (plain.members member listed).param_present]
    · rw [carriedArguments, List.getElem?_append_left (by rwa [List.length_map]),
        List.getElem?_map, found, Option.map_some, carriedArgument]
    · intro kept
      have changes : member ∈ definition.mutableMembers :=
        List.mem_filter.mpr ⟨listed, by rw [kept]; rfl⟩
      exact List.mem_cons_of_mem _ (List.mem_map.mpr ⟨member, changes, rfl⟩)
  case created_last =>
    exact List.drop_left' (List.length_map _)
  case carried_last =>
    exact List.drop_left' (List.length_map _)
  case updated_length =>
    rw [updateParameters, List.length_cons, List.length_map]
  case tested_length =>
    rw [updateParameters, List.length_cons, List.length_map, List.length_map]
  case visited_length =>
    rw [rebuildArguments, updateParameters, List.length_cons, List.length_cons, List.length_map,
      List.length_map]
  case node => exact ⟨rfl, rfl⟩
  case mutables =>
    intro i member found
    refine ⟨member.param.display, Visitor.visitedArgument tables definition member, ?_, ?_, ?_, ?_⟩
    · rw [updateParameters, List.getElem?_cons_succ, List.getElem?_map, found]
      rfl
    · rw [List.getElem?_map, found]
      rfl
    · rw [rebuildArguments, List.getElem?_cons_succ, List.getElem?_map, found]
      rfl
    · unfold Visitor.visitedArgument
      dsimp only
      split
      · refine .inr ?_
        split
        · exact ⟨"visitNodes", by decide, rfl⟩
        · exact ⟨"visit", by decide, rfl⟩
      · exact .inl rfl

theorem declaredType_apart {member : Member} (whole : Apart ',' ' ' member.type.display) :
    Apart ',' ' ' (declaredType member) := by
  have sign : Lacks ' ' (if member.isArray then "[]" else "") := by split <;> decide
  exact whole.append (apart_of_second sign) (.inr sign)

section Parts

variable (plain : definition.Plain)
include plain

theorem createParameters_apart (whole : definition.TypesWhole) :
    ∀ parameter ∈ createParameters definition, Apart ',' ' ' parameter := by
  intro parameter found
  rcases List.mem_append.mp found with own | fixed
  · obtain ⟨member, listed, rfl⟩ := List.mem_map.mp own
    have names := plain.members member listed
    have param : Lacks ',' member.param.display := lacks_of_plain names.param (by decide)
    have sign : Lacks ',' (if member.optional then "?" else "") := by split <;> decide
    rw [createParameter, Json.displayPresent_of_present names.param_present]
    refine .after ?_ (declaredType_apart (whole.members member listed))
    simp +decide only [free_append, param, sign, and_self]
  · have each : ∀ text ∈ ["location?: TextRange", "flags?: NodeFlags"], Lacks ',' text := by decide
    exact apart_of_first (each parameter fixed)

theorem updateParameters_apart (whole : definition.TypesWhole) :
    ∀ parameter ∈ updateParameters definition, Apart ',' ' ' parameter := by
  intro parameter found
  rcases List.mem_cons.mp found with rfl | own
  · exact .after (by decide) whole.type
  · obtain ⟨member, listed, rfl⟩ := List.mem_map.mp own
    have among := List.mem_of_mem_filter listed
    have param : Lacks ',' member.param.display :=
      lacks_of_plain (plain.members member among).param (by decide)
    refine .after ?_ (declaredType_apart (whole.members member among))
    simp +decide only [free_append, param, and_self]

theorem carriedArguments_apart :
    ∀ argument ∈ carriedArguments definition, Apart ',' ' ' argument := by
  intro argument found
  apply apart_of_first
  rcases List.mem_append.mp found with own | fixed
  · obtain ⟨member, listed, rfl⟩ := List.mem_map.mp own
    have names := plain.members member listed
    have name : Lacks ',' member.name.display := lacks_of_plain names.name (by decide)
    unfold carriedArgument
    split
    · simp +decide only [free_append, name, and_self]
    · exact lacks_of_plain names.param (by decide)
  · have each : ∀ text ∈ ["node", "node.flags"], Lacks ',' text := by decide
    exact each argument fixed

theorem rebuildArguments_apart {raw : Definition} (canonizes : raw.Canonizes definition)
    (tables : Tables) :
    ∀ argument ∈ rebuildArguments tables definition, Apart ',' '\n' argument := by
  have feed (c : Char) (same : (c == '\n') = true) : isBreak c = true := by
    rw [isBreak, same, Bool.or_true]
  have type : Lacks '\n' definition.type.display := canonizes.type_unbroken.mono feed
  intro argument found
  apply apart_of_second
  rcases List.mem_cons.mp found with rfl | own
  · simp +decide only [free_append, type, and_self]
  · obtain ⟨member, listed, rfl⟩ := List.mem_map.mp own
    have among := List.mem_of_mem_filter listed
    obtain ⟨before, member_canonizes⟩ := canonizes.exists_member among
    have name : Lacks '\n' member.name.display :=
      lacks_of_plain (plain.members member among).name (by decide)
    have own : Lacks '\n' member.type.display := member_canonizes.type_unbroken.mono feed
    unfold Visitor.visitedArgument
    dsimp only
    split
    · split <;> simp +decide only [free_append, name, own, type, and_self]
    · simp +decide only [free_append, name, type, and_self]

end Parts

/-- The tests of an update have no bar, so that only those between them count. -/
theorem changeTests_apart {raw : Definition} (canonizes : raw.Canonizes definition) :
    ∀ test ∈ definition.mutableMembers.map changeTest, Apart ' ' '|' test := by
  intro test found
  obtain ⟨member, listed, rfl⟩ := List.mem_map.mp found
  obtain ⟨before, canonizes⟩ := canonizes.exists_member (List.mem_of_mem_filter listed)
  have name := lacks_iff.mpr canonizes.bar_not_mem_name
  have param := lacks_iff.mpr canonizes.bar_not_mem_param
  apply apart_of_second
  simp +decide only [changeTest, free_append, name, param, and_self]

/-- Arguments on lines of their own are joined by commas and line feeds. -/
theorem texts_commaLines (closing : String) {arguments : List String} (some : arguments ≠ []) :
    "\n".intercalate (Code.texts (commaLines closing arguments)) =
      ",\n".intercalate arguments ++ closing := by
  induction arguments with
  | nil => exact absurd rfl some
  | cons first rest ih =>
    cases rest with
    | nil =>
      have alone : Code.texts (commaLines closing [first]) = [first ++ closing] := rfl
      rw [alone, String.intercalate_singleton, String.intercalate_singleton]
    | cons second rest =>
      have texts : Code.texts (commaLines closing (first :: second :: rest)) =
          (first ++ ",") :: Code.texts (commaLines closing (second :: rest)) := rfl
      have shorter := ih (List.cons_ne_nil _ _)
      cases more : Code.texts (commaLines closing (second :: rest)) with
      | nil => cases rest <;> cases more
      | cons next others =>
        have joint : ",\n" = "," ++ "\n" := rfl
        rw [more] at shorter
        rw [texts, more, String.intercalate_cons_cons, shorter, String.intercalate_cons_cons, joint]
        simp only [String.append_assoc]

def callTexts (tables : Tables) (definition : Definition) : CallTexts where
  created := ", ".intercalate (createParameters definition)
  updated := ", ".intercalate (updateParameters definition)
  tested := " || ".intercalate (definition.mutableMembers.map changeTest)
  carried := ", ".intercalate (carriedArguments definition)
  visited := ",\n".intercalate (rebuildArguments tables definition)

theorem callTexts_written (settings : Settings) (tables : Tables) (definition : Definition) :
    (callTexts tables definition).Written settings tables definition :=
  ⟨rfl, rfl, _, Code.texts_line_nested _ _, texts_commaLines ");" (List.cons_ne_nil _ _)⟩

/-- What stands around the lists determines them. -/
theorem eq_callTexts {texts : CallTexts} {settings : Settings} {tables : Tables}
    (written : texts.Written settings tables definition) : texts = callTexts tables definition := by
  have own := callTexts_written settings tables definition
  have created := written.created.symm.trans own.created
  have updated := written.updated.symm.trans own.updated
  obtain ⟨lines, laid, joined⟩ := written.visited
  obtain ⟨others, same, reached⟩ := own.visited
  rw [laid] at same
  have visited : lines = others := (List.cons.inj same).2
  rw [← visited, joined] at reached
  simp only [Option.some.injEq, List.cons.injEq, and_true, String.append_left_inj,
    String.append_right_inj] at created updated reached
  obtain ⟨updated, tested, carried⟩ := updated
  cases texts
  dsimp only at created updated tested carried reached
  rw [created, updated, tested, carried, reached]

end Factory

/-- The functions of an updatable definition with plain names and whole types call each other with
arguments that agree place by place, as one reads them off the separators. -/
theorem Catalog.calls_agree {schema : Json} {catalog : Catalog} {definition : Definition}
    (indexed : Catalog.ofSchema schema = .ok catalog) (listed : definition ∈ catalog.definitions)
    (updatable : definition.updatable = true) (plain : definition.Plain)
    (whole : definition.TypesWhole) (settings : Settings) :
    (∃ texts : CallTexts, texts.Written settings catalog.tables definition) ∧
      ∀ texts : CallTexts, texts.Written settings catalog.tables definition →
        CallsAgree definition (parts ", " texts.created) (parts ", " texts.updated)
          (parts " || " texts.tested) (parts ", " texts.carried) (parts ",\n" texts.visited) := by
  obtain ⟨raw, canonizes⟩ := Catalog.exists_canonizes indexed listed
  have changing : definition.mutableMembers ≠ [] := by
    rw [Definition.updatable, Bool.and_eq_true, Bool.not_eq_true', List.isEmpty_eq_false_iff]
      at updatable
    exact updatable.2
  have created : parts ", " (", ".intercalate (Factory.createParameters definition)) = _ :=
    parts_intercalate (by decide) rfl (List.append_ne_nil_of_right_ne_nil _ (by decide))
      (Factory.createParameters_apart plain whole)
  have updated : parts ", " (", ".intercalate (Factory.updateParameters definition)) = _ :=
    parts_intercalate (by decide) rfl (List.cons_ne_nil _ _)
      (Factory.updateParameters_apart plain whole)
  have tested : parts " || " (" || ".intercalate
      (definition.mutableMembers.map Factory.changeTest)) = _ :=
    parts_intercalate (by decide) rfl (by rwa [ne_eq, List.map_eq_nil_iff])
      (Factory.changeTests_apart canonizes)
  have carried : parts ", " (", ".intercalate (Factory.carriedArguments definition)) = _ :=
    parts_intercalate (by decide) rfl (List.append_ne_nil_of_right_ne_nil _ (by decide))
      (Factory.carriedArguments_apart plain)
  have visited : parts ",\n" (",\n".intercalate
      (Visitor.rebuildArguments catalog.tables definition)) = _ :=
    parts_intercalate (by decide) rfl (List.cons_ne_nil _ _)
      (Factory.rebuildArguments_apart plain canonizes catalog.tables)
  refine ⟨⟨_, Factory.callTexts_written settings catalog.tables definition⟩, ?_⟩
  intro texts written
  rw [Factory.eq_callTexts written, Factory.callTexts]
  dsimp only
  rw [created, updated, tested, carried, visited]
  exact Factory.callsAgree plain catalog.tables

/-- Calls of a function that cannot be changed, with an array that may be absent, an array of
modifiers, a text that is converted, and a field of the type of calls. -/
def mixedSchema : Json := .list [.record [("kind", .text "Call"), ("type", .text "Call"),
  ("children", .list [
    .record [("name", .text "callee"), ("type", .text "Expression"), ("readonly", .bool true)],
    .record [("name", .text "arguments"), ("paramName", .text "args"), ("type", .text "Expression"),
      ("isNodeArray", .bool true), ("optional", .bool true)],
    .record [("name", .text "modifiers"), ("type", .text "Node"), ("isModifiersArray", .bool true)],
    .record [("name", .text "label"), ("type", .text "string"), ("converter", .text "escape")],
    .record [("name", .text "outer"), ("type", .text "Call"), ("optional", .bool true)]])]]

def mixedDefinition : Definition where
  kind := .text "Call"
  type := .text "Call"
  name := .text "Call"
  members := some [
    { name := .text "callee", param := .text "callee", type := .text "Expression",
      readOnly := true },
    { name := .text "arguments", param := .text "args", type := .text "Expression",
      nodeArray := true, optional := true },
    { name := .text "modifiers", param := .text "modifiers", type := .text "Node",
      modifiersArray := true },
    { name := .text "label", param := .text "label", type := .text "string",
      converter := .text "escape" },
    { name := .text "outer", param := .text "outer", type := .text "Call", optional := true }]

def mixedCatalog : Catalog where
  definitions := [mixedDefinition]
  tables := Tables.addAll {} 0 [(true, mixedDefinition)]

theorem ofSchema_mixedSchema : Catalog.ofSchema mixedSchema = .ok mixedCatalog := by
  cbv

theorem Catalog.sample_calls_agree : ∃ texts : CallTexts,
    texts.Written {} mixedCatalog.tables mixedDefinition ∧
      CallsAgree mixedDefinition (parts ", " texts.created) (parts ", " texts.updated)
        (parts " || " texts.tested) (parts ", " texts.carried) (parts ",\n" texts.visited) := by
  have listed : mixedDefinition ∈ mixedCatalog.definitions := List.mem_cons_self
  have updatable : mixedDefinition.updatable = true := rfl
  have plain : mixedDefinition.Plain := by decide
  have type : Lacks ',' mixedDefinition.type.display := by decide
  have types : ∀ member ∈ mixedDefinition.memberList, Lacks ',' member.type.display := by decide
  have whole : mixedDefinition.TypesWhole :=
    ⟨apart_of_first type, fun member found => apart_of_first (types member found)⟩
  obtain ⟨⟨texts, written⟩, agree⟩ :=
    calls_agree ofSchema_mixedSchema listed updatable plain whole {}
  exact ⟨texts, written, agree texts written⟩

/-- A schema of a type whose canonical form has a comma with a blank after it. -/
def commaSchema : Json := .list [.record [("kind", .text "K"),
  ("children", .list [.record [("name", .text "x"), ("type", .text "A,|B")]])]]

def commaDefinition : Definition where
  kind := .text "K"
  name := .text "K"
  members := some [{ name := .text "x", param := .text "x", type := .text "A, | B" }]

/-- A comma before a bar is taken for a separator. -/
theorem Catalog.comma_calls_disagree :
    Catalog.ofSchema commaSchema =
        .ok ⟨[commaDefinition], Tables.addAll {} 0 [(false, commaDefinition)]⟩ ∧
      commaDefinition.updatable = true ∧ commaDefinition.Plain ∧
      ∀ texts : CallTexts,
        texts.Written {} (Tables.addAll {} 0 [(false, commaDefinition)]) commaDefinition →
        ¬ CallsAgree commaDefinition (parts ", " texts.created) (parts ", " texts.updated)
          (parts " || " texts.tested) (parts ", " texts.carried) (parts ",\n" texts.visited) := by
  refine ⟨by cbv, by decide, by decide, ?_⟩
  intro texts written agree
  have long := agree.created_length
  rw [Factory.eq_callTexts written] at long
  revert long
  decide

end NodeSmith
