import NodeSmith.Proofs.Factory.Calls

set_option autoImplicit false

namespace NodeSmith

open Layout (Code)
open Text

namespace Factory

def isNameChar (c : Char) : Bool :=
  c.isAlphanum || c == '_' || c == '$' || (0x80 ≤ c.toNat && !isBlank c)

/-- The text is one name. Names that start with a digit are let through. -/
@[mk_iff]
structure Identifier (text : String) : Prop where
  nonempty : text ≠ ""
  chars : Free (fun c => !isNameChar c) text

instance (text : String) : Decidable (Identifier text) :=
  decidable_of_iff' _ (identifier_iff text)

def leadingName (text : String) : String := String.ofList (text.toList.takeWhile isNameChar)

/-- The names that the signature of the create function declares. -/
def createNames (definition : Definition) : List String :=
  (createParameters definition).map leadingName

def updateNames (definition : Definition) : List String :=
  (updateParameters definition).map leadingName

/-- What a variable of a generated function stands for. -/
inductive Referent
  /-- The argument that the caller passes in a place. -/
  | argument (place : Nat)
  /-- The node that the function declares. -/
  | created
  deriving DecidableEq

/-- Binds names to arguments, from a place on. A name hides an earlier one that is the same. -/
def bindAll (scope : List (String × Referent)) : Nat → List String → List (String × Referent)
  | _, [] => scope
  | place, name :: rest => bindAll (Assoc.insert scope name (.argument place)) (place + 1) rest

/-- The scope of the body of the create function, which declares a variable of its own. -/
def createScope (definition : Definition) : List (String × Referent) :=
  Assoc.insert (bindAll [] 0 (createNames definition)) "node" .created

def updateScope (definition : Definition) : List (String × Referent) :=
  bindAll [] 0 (updateNames definition)

/-- A value that is stored in a field: that of a variable as it is, what a function makes of it, or
it as another type. -/
inductive Operand
  | bare (name : String)
  | call (function name : String)
  | cast (type name : String)

namespace Operand

def name : Operand → String
  | bare name | call _ name | cast _ name => name

def render : Operand → String
  | bare name => name
  | call function name => function ++ "(" ++ name ++ ")"
  | cast type name => "<" ++ type ++ ">" ++ name

end Operand

structure Comparison where
  node : String
  field : String
  value : String

def Comparison.render (comparison : Comparison) : String :=
  comparison.node ++ "." ++ comparison.field ++ " !== " ++ comparison.value

end Factory

open Factory

/-- The parameters that set the members have identifiers for names, no two the same. -/
structure Definition.ParamsNamed (definition : Definition) : Prop where
  identifiers : ∀ member ∈ definition.memberList, ∃ name,
    member.param = .text name ∧ Identifier name
  distinct : (definition.memberList.map fun member => member.param.display).Nodup

namespace Factory

/-- A function creates a node from the caller's arguments: it declares a node, stores the argument
of each member in the member's field of that node, and finishes the node with the arguments for
location and flags, and with that of an array of modifiers if there is one. -/
structure ReadsCreated (definition : Definition) (function : List Code) : Prop where
  header : (Code.texts function)[0]? =
    some ("export function create" ++ definition.name.display ++ "(" ++
      ", ".intercalate (createParameters definition) ++ "): " ++ definition.type.display ++ " \x7b")
  declaration : (Code.texts function)[1]? =
    some ("var node = beginNode<" ++ definition.type.display ++ ">(SyntaxKind." ++
      definition.kind.display ++ ");")
  stores : ∀ (i : Nat) (member : Member), definition.memberList[i]? = some member →
    ∃ target operand, (Code.texts function)[i + 2]? =
        some (target ++ "." ++ member.name.display ++ " = " ++ Operand.render operand ++ ";") ∧
      Assoc.get? (createScope definition) target = some .created ∧
      Assoc.get? (createScope definition) operand.name = some (.argument i)
  finish : ∃ node location flags modifiers,
    (Code.texts function)[definition.memberList.length + 2]? =
      some ("return finishNode(" ++
        ", ".intercalate ([node, location, flags] ++ Option.toList modifiers) ++ ");") ∧
    Assoc.get? (createScope definition) node = some .created ∧
    Assoc.get? (createScope definition) location =
      some (.argument definition.memberList.length) ∧
    Assoc.get? (createScope definition) flags =
      some (.argument (definition.memberList.length + 1)) ∧
    ∀ name ∈ modifiers, ∃ i member, definition.memberList[i]? = some member ∧
      member.modifiersArray = true ∧
      Assoc.get? (createScope definition) name = some (.argument i)

/-- A function compares the fields of the node that it is given, one for each mutable member, with
the arguments for them. -/
structure ReadsUpdated (definition : Definition) (function : List Code) : Prop where
  header : (Code.texts function)[0]? =
    some ("export function update" ++ definition.name.display ++ "(" ++
      ", ".intercalate (updateParameters definition) ++ "): " ++ definition.type.display ++ " \x7b")
  tests : ∃ comparisons : List Comparison,
    (Code.texts function)[1]? =
      some ("if (" ++ " || ".intercalate (comparisons.map Comparison.render) ++ ") \x7b") ∧
    comparisons.length = definition.mutableMembers.length ∧
    ∀ (i : Nat) (member : Member), definition.mutableMembers[i]? = some member →
      ∃ comparison, comparisons[i]? = some comparison ∧
        comparison.field = member.name.display ∧
        Assoc.get? (updateScope definition) comparison.node = some (.argument 0) ∧
        Assoc.get? (updateScope definition) comparison.value = some (.argument (i + 1))

/-- The parameters of the functions of a definition are told apart as far as the schema leaves the
functions their own names. -/
structure ParametersDistinct (definition : Definition) : Prop where
  create_iff : (createNames definition).Nodup ↔
    ∀ member ∈ definition.memberList, member.param.display ∉ ["location", "flags"]
  update_iff : (updateNames definition).Nodup ↔
    ∀ member ∈ definition.mutableMembers, member.param.display ≠ "node"
  declared_iff : "node" ∉ createNames definition ↔
    ∀ member ∈ definition.memberList, member.param.display ≠ "node"
  create_reads :
    (∀ member ∈ definition.memberList, member.param.display ∉ ["node", "location", "flags"]) →
      ∀ function, create? definition = some function → ReadsCreated definition function
  update_reads : (∀ member ∈ definition.mutableMembers, member.param.display ≠ "node") →
    ∀ function, update? definition = some function → ReadsUpdated definition function

section Names

/-- A name ends where a mark that is no part of names begins. -/
theorem leadingName_append {name mark : String} (identifier : Identifier name)
    (ends : mark.toList.head?.any (fun c => !isNameChar c) = true) (rest : String) :
    leadingName (name ++ (mark ++ rest)) = name := by
  obtain ⟨c, first, other⟩ := (Option.any_eq_true _ _).mp ends
  obtain ⟨tail, split⟩ := List.head?_eq_some_iff.mp first
  have chars : ∀ c ∈ name.toList, isNameChar c = true := by
    simpa only [Free, Bool.not_eq_false'] using identifier.chars
  rw [leadingName, String.toList_append, List.takeWhile_append_of_pos chars, String.toList_append,
    split, List.cons_append, List.takeWhile_cons_of_neg (by simpa using other), List.append_nil,
    String.ofList_toList]

variable {definition : Definition}

theorem present_of_identifier {name : String} (identifier : Identifier name) :
    (Json.text name).present = true := by
  rw [Json.present, Bool.not_eq_true', ← Bool.not_eq_true, String.isEmpty_iff]
  exact identifier.nonempty

theorem leadingName_createParameter {member : Member} {name : String}
    (own : member.param = .text name) (identifier : Identifier name) :
    leadingName (createParameter member) = member.param.display := by
  rw [createParameter, own, Json.displayPresent_of_present (present_of_identifier identifier),
    Json.display, String.append_assoc, String.append_assoc]
  by_cases optional : member.optional = true
  · rw [if_pos optional, leadingName_append identifier (by decide)]
  · rw [if_neg optional, String.empty_append, leadingName_append identifier (by decide)]

theorem leadingName_updateParameter {member : Member} {name : String}
    (own : member.param = .text name) (identifier : Identifier name) :
    leadingName (updateParameter member) = member.param.display := by
  rw [updateParameter, own, Json.display, String.append_assoc,
    leadingName_append identifier (by decide)]

variable (named : definition.ParamsNamed)
include named

theorem createNames_eq : createNames definition =
    definition.memberList.map (fun member => member.param.display) ++ ["location", "flags"] := by
  have own : ∀ member ∈ definition.memberList,
      leadingName (createParameter member) = member.param.display := by
    intro member listed
    obtain ⟨name, text, identifier⟩ := named.identifiers member listed
    exact leadingName_createParameter text identifier
  have fixed : ["location?: TextRange", "flags?: NodeFlags"].map leadingName =
      ["location", "flags"] := by decide
  rw [createNames, createParameters, List.map_append, List.map_map, fixed]
  exact congrArg (· ++ _) (List.map_congr_left own)

theorem updateNames_eq : updateNames definition =
    "node" :: definition.mutableMembers.map fun member => member.param.display := by
  have own : ∀ member ∈ definition.mutableMembers,
      leadingName (updateParameter member) = member.param.display := by
    intro member listed
    obtain ⟨name, text, identifier⟩ := named.identifiers member (List.mem_of_mem_filter listed)
    exact leadingName_updateParameter text identifier
  have node : leadingName ("node: " ++ definition.type.display) = "node" := by
    have joint : "node: " = "node" ++ ": " := rfl
    rw [joint, String.append_assoc, leadingName_append (by decide) (by decide)]
  rw [updateNames, updateParameters, List.map_cons, List.map_map, node]
  exact congrArg _ (List.map_congr_left own)

theorem nodup_createNames_iff : (createNames definition).Nodup ↔
    ∀ member ∈ definition.memberList, member.param.display ∉ ["location", "flags"] := by
  have fixed : ["location", "flags"].Nodup := by decide
  rw [createNames_eq named, List.nodup_append']
  simp only [named.distinct, fixed, true_and, List.disjoint_left, List.forall_mem_map]

theorem nodup_updateNames_iff : (updateNames definition).Nodup ↔
    ∀ member ∈ definition.mutableMembers, member.param.display ≠ "node" := by
  have kept : (definition.mutableMembers.map fun member => member.param.display).Nodup :=
    named.distinct.sublist (List.filter_sublist.map _)
  rw [updateNames_eq named, List.nodup_cons]
  simp only [kept, and_true, List.mem_map, not_exists, not_and, ne_eq]

theorem node_not_mem_createNames_iff : "node" ∉ createNames definition ↔
    ∀ member ∈ definition.memberList, member.param.display ≠ "node" := by
  have fixed : "node" ∉ ["location", "flags"] := by decide
  rw [createNames_eq named, List.mem_append]
  simp only [fixed, or_false, List.mem_map, not_exists, not_and, ne_eq]

end Names

section Scopes

theorem get?_bindAll_of_not_mem {names : List String} {name : String} (absent : name ∉ names)
    (scope : List (String × Referent)) (place : Nat) :
    Assoc.get? (bindAll scope place names) name = Assoc.get? scope name := by
  induction names generalizing scope place with
  | nil => rfl
  | cons first rest ih =>
    rw [List.mem_cons, not_or] at absent
    rw [bindAll, ih absent.2, Assoc.get?_insert, if_neg (Ne.symm absent.1)]

/-- Of distinct names each stands for the argument in its own place. -/
theorem get?_bindAll {names : List String} (distinct : names.Nodup) {i : Nat} {name : String}
    (found : names[i]? = some name) (scope : List (String × Referent)) (place : Nat) :
    Assoc.get? (bindAll scope place names) name = some (.argument (place + i)) := by
  induction names generalizing scope place i with
  | nil => cases found
  | cons first rest ih =>
    rw [List.nodup_cons] at distinct
    cases i with
    | zero =>
      rw [List.getElem?_cons_zero] at found
      cases found
      rw [bindAll, get?_bindAll_of_not_mem distinct.1, Assoc.get?_insert, if_pos rfl, Nat.add_zero]
    | succ i =>
      rw [List.getElem?_cons_succ] at found
      rw [bindAll, ih distinct.2 found, Nat.add_right_comm, Nat.add_assoc]

variable {definition : Definition}

theorem get?_createScope_node : Assoc.get? (createScope definition) "node" = some .created := by
  rw [createScope, Assoc.get?_insert, if_pos rfl]

theorem get?_createScope (distinct : (createNames definition).Nodup) {i : Nat} {name : String}
    (found : (createNames definition)[i]? = some name) (other : name ≠ "node") :
    Assoc.get? (createScope definition) name = some (.argument i) := by
  rw [createScope, Assoc.get?_insert, if_neg (Ne.symm other), get?_bindAll distinct found,
    Nat.zero_add]

theorem get?_updateScope (distinct : (updateNames definition).Nodup) {i : Nat} {name : String}
    (found : (updateNames definition)[i]? = some name) :
    Assoc.get? (updateScope definition) name = some (.argument i) := by
  rw [updateScope, get?_bindAll distinct found, Nat.zero_add]

end Scopes

section Bodies

variable (definition : Definition)

def storeLine (member : Member) : String :=
  "node." ++ member.name.display ++ " = " ++ initializer member ++ ";"

theorem texts_createFunction : Code.texts (createFunction definition) =
    ("export function create" ++ definition.name.display ++ "(" ++
        ", ".intercalate (createParameters definition) ++ "): " ++ definition.type.display ++
        " \x7b") ::
      ("var node = beginNode<" ++ definition.type.display ++ ">(SyntaxKind." ++
        definition.kind.display ++ ");") ::
      (definition.memberList.map storeLine ++
        ["return finishNode(" ++ ", ".intercalate (finishArguments definition) ++ ");",
          "\x7d"]) := by
  have stores : (definition.memberList.map fun member => Code.line
      ("node." ++ member.name.display ++ " = " ++ initializer member ++ ";")) =
      (definition.memberList.map storeLine).map Code.line := List.map_map.symm
  rw [createFunction, Code.texts_cons_line, Code.texts_cons_nested, stores, List.cons_append,
    Code.texts_cons_line, Code.texts_map_line_append, List.cons_append, List.append_assoc]
  rfl

/-- What is stored for a member reads the parameter of that member and no other variable. -/
theorem exists_operand (member : Member) :
    ∃ operand : Operand, operand.render = initializer member ∧
      operand.name = member.param.display := by
  unfold initializer
  dsimp only
  split
  case isTrue => exact ⟨.call member.converter.display member.param.display, rfl, rfl⟩
  case isFalse =>
    split
    case isTrue => exact ⟨.call "createNodeArray" member.param.display, rfl, rfl⟩
    case isFalse =>
      split
      case isTrue => exact ⟨.cast "ModifiersArray" member.param.display, rfl, rfl⟩
      case isFalse => exact ⟨.bare member.param.display, rfl, rfl⟩

/-- Beyond the node, its location and its flags a node is finished at most with the parameter of an
array of modifiers. -/
theorem exists_modifiers : ∃ modifiers : Option String,
    finishArguments definition = ["node", "location", "flags"] ++ modifiers.toList ∧
      ∀ name ∈ modifiers, ∃ member ∈ definition.memberList,
        member.modifiersArray = true ∧ member.param.display = name := by
  by_cases present : (modifiersParam definition).present = true
  · refine ⟨some (modifiersParam definition).display, ?_, ?_⟩
    · rw [finishArguments, if_pos present]
      rfl
    · rintro name ⟨⟩
      unfold modifiersParam at present ⊢
      split
      case h_1 member last =>
        have listed := List.mem_filter.mp (List.mem_of_getLast? last)
        exact ⟨member, listed.1, listed.2, rfl⟩
      case h_2 none =>
        rw [none] at present
        cases present
  · refine ⟨none, ?_, nofun⟩
    rw [finishArguments, if_neg present]
    rfl

variable {definition} (named : definition.ParamsNamed)
include named

theorem createFunction_reads
    (fresh : ∀ member ∈ definition.memberList,
      member.param.display ∉ ["node", "location", "flags"]) :
    ReadsCreated definition (createFunction definition) := by
  have distinct : (createNames definition).Nodup := by
    rw [nodup_createNames_iff named]
    exact fun member listed clash => fresh member listed (List.mem_cons_of_mem _ clash)
  have size : (definition.memberList.map fun member => member.param.display).length =
      definition.memberList.length := List.length_map _
  have reads (i : Nat) (member : Member) (found : definition.memberList[i]? = some member) :
      Assoc.get? (createScope definition) member.param.display = some (.argument i) := by
    have inside := (List.getElem?_eq_some_iff.mp found).1
    apply get?_createScope distinct
    · rw [createNames_eq named, List.getElem?_append_left (by rwa [size]), List.getElem?_map, found,
        Option.map_some]
    · exact fun clash => fresh member (List.mem_of_getElem? found)
        (clash ▸ List.mem_cons_self)
  have location : (createNames definition)[definition.memberList.length]? = some "location" := by
    rw [createNames_eq named, List.getElem?_append_right (by rw [size]), size, Nat.sub_self]
    rfl
  have flags : (createNames definition)[definition.memberList.length + 1]? = some "flags" := by
    rw [createNames_eq named, List.getElem?_append_right (by rw [size]; omega), size,
      Nat.add_sub_cancel_left]
    rfl
  constructor
  case header => rw [texts_createFunction, List.getElem?_cons_zero]
  case declaration =>
    rw [texts_createFunction, List.getElem?_cons_succ, List.getElem?_cons_zero]
  case stores =>
    intro i member found
    have inside := (List.getElem?_eq_some_iff.mp found).1
    obtain ⟨operand, written, own⟩ := exists_operand member
    refine ⟨"node", operand, ?_, get?_createScope_node, own ▸ reads i member found⟩
    rw [texts_createFunction, List.getElem?_cons_succ, List.getElem?_cons_succ,
      List.getElem?_append_left (by rwa [List.length_map]), List.getElem?_map, found,
      Option.map_some, storeLine, written]
    rfl
  case finish =>
    obtain ⟨modifiers, written, own⟩ := exists_modifiers definition
    refine ⟨"node", "location", "flags", modifiers, ?_, get?_createScope_node,
      get?_createScope distinct location (by decide),
      get?_createScope distinct flags (by decide), ?_⟩
    · rw [texts_createFunction, List.getElem?_cons_succ, List.getElem?_cons_succ,
        List.getElem?_append_right (by rw [List.length_map]), List.length_map, Nat.sub_self,
        List.getElem?_cons_zero, written]
    · intro name chosen
      obtain ⟨member, listed, holds, same⟩ := own name chosen
      obtain ⟨i, found⟩ := List.getElem?_of_mem listed
      exact ⟨i, member, found, holds, same ▸ reads i member found⟩

theorem updateFunction_reads
    (fresh : ∀ member ∈ definition.mutableMembers, member.param.display ≠ "node") :
    ReadsUpdated definition (updateFunction definition) := by
  have distinct : (updateNames definition).Nodup := (nodup_updateNames_iff named).mpr fresh
  have node : (updateNames definition)[0]? = some "node" := by rw [updateNames_eq named]; rfl
  refine ⟨rfl, definition.mutableMembers.map fun member =>
    ⟨"node", member.name.display, member.param.display⟩, ?_, List.length_map _, ?_⟩
  · rw [List.map_map]
    rfl
  · intro i member found
    refine ⟨_, by rw [List.getElem?_map, found, Option.map_some], rfl,
      get?_updateScope distinct node, ?_⟩
    apply get?_updateScope distinct
    rw [updateNames_eq named, List.getElem?_cons_succ, List.getElem?_map, found, Option.map_some]

end Bodies

/-- Members whose parameters have distinct identifiers for names leave the parameters of the
functions distinct, and the functions reading the caller's arguments, if and only if none has a
name that the functions use themselves. -/
theorem parameters_distinct {definition : Definition} (named : definition.ParamsNamed) :
    ParametersDistinct definition where
  create_iff := nodup_createNames_iff named
  update_iff := nodup_updateNames_iff named
  declared_iff := node_not_mem_createNames_iff named
  create_reads := by
    intro fresh function made
    rw [create?, Option.ite_none_right_eq_some] at made
    rw [← Option.some.inj made.2]
    exact createFunction_reads named fresh
  update_reads := by
    intro fresh function made
    rw [update?, Option.ite_none_right_eq_some] at made
    rw [← Option.some.inj made.2]
    exact updateFunction_reads named fresh

theorem sample_parameters_distinct :
    (createNames mixedDefinition).Nodup ∧ (updateNames mixedDefinition).Nodup ∧
      "node" ∉ createNames mixedDefinition ∧
      ReadsCreated mixedDefinition (createFunction mixedDefinition) ∧
      ReadsUpdated mixedDefinition (updateFunction mixedDefinition) := by
  have named : mixedDefinition.ParamsNamed := by
    refine ⟨?_, by decide⟩
    have params : mixedDefinition.memberList.map (·.param) =
        ["callee", "args", "modifiers", "label", "outer"].map Json.text := rfl
    have each : ∀ name ∈ ["callee", "args", "modifiers", "label", "outer"], Identifier name := by
      decide
    intro member listed
    have given := List.mem_map_of_mem (f := (·.param)) listed
    rw [params] at given
    obtain ⟨name, chosen, same⟩ := List.mem_map.mp given
    exact ⟨name, same.symm, each name chosen⟩
  have distinct := parameters_distinct named
  exact ⟨distinct.create_iff.mpr (by decide), distinct.update_iff.mpr (by decide),
    distinct.declared_iff.mpr (by decide), distinct.create_reads (by decide) _ rfl,
    distinct.update_reads (by decide) _ rfl⟩

/-- A schema of parameters with the names that the functions use themselves. -/
def clashSchema : Json := .list [.record [("kind", .text "K"), ("type", .text "K"),
  ("children", .list [.record [("name", .text "node"), ("type", .text "T")],
    .record [("name", .text "location"), ("type", .text "T")],
    .record [("name", .text "flags"), ("type", .text "T")]])]]

def clashDefinition : Definition where
  kind := .text "K"
  type := .text "K"
  name := .text "K"
  members := some [{ name := .text "node", param := .text "node", type := .text "T" },
    { name := .text "location", param := .text "location", type := .text "T" },
    { name := .text "flags", param := .text "flags", type := .text "T" }]

/-- Names that are told apart in the schema are not in the functions: the field `node` is set to the
new node itself, and the argument for it compared with a field of its own. -/
theorem clash_parameters_merge :
    Catalog.ofSchema clashSchema =
        .ok ⟨[clashDefinition], Tables.addAll {} 0 [(true, clashDefinition)]⟩ ∧
      clashDefinition.updatable = true ∧ clashDefinition.ParamsNamed ∧
      ¬ (createNames clashDefinition).Nodup ∧ ¬ (updateNames clashDefinition).Nodup ∧
      "node" ∈ createNames clashDefinition ∧
      (Code.texts (createFunction clashDefinition))[2]? = some "node.node = node;" ∧
      Assoc.get? (createScope clashDefinition) "node" = some .created ∧
      (Code.texts (updateFunction clashDefinition))[1]? =
        some ("if (node.node !== node || node.location !== location || node.flags !== flags) " ++
          "\x7b") ∧
      Assoc.get? (updateScope clashDefinition) "node" = some (.argument 1) := by
  refine ⟨by cbv, by decide, ⟨?_, by decide⟩, by decide, by decide, by decide, by decide,
    by decide, by decide, by decide⟩
  intro member listed
  have each : ∀ name ∈ ["node", "location", "flags"], Identifier name := by decide
  have shape : clashDefinition.memberList = ["node", "location", "flags"].map fun name =>
    { name := .text name, param := .text name, type := .text "T" } := rfl
  rw [shape] at listed
  obtain ⟨name, chosen, rfl⟩ := List.mem_map.mp listed
  exact ⟨name, rfl, each name chosen⟩

end Factory

end NodeSmith
