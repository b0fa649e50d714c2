import NodeSmith.Proofs.Assoc
import NodeSmith.Proofs.Outcome
import NodeSmith.Settings

set_option autoImplicit false

namespace NodeSmith

namespace Json

/-- The value that a record gives to a name, the last of several, or one that stands in for it. -/
def given (fields : List (String × Json)) (name : String) (default : Json) : Json :=
  fields.foldl (fun held field => if field.1 = name then field.2 else held) default

theorem given_of_distinct {fields : List (String × Json)} (distinct : (Assoc.keys fields).Nodup)
    (name : String) (default : Json) :
    given fields name default = (Assoc.get? fields name).getD default := by
  have last := Assoc.foldl_eq_get? distinct name id default
  rwa [Option.map_id, id] at last

end Json

/-- The choices that a value stands for. -/
def Output.ofJson : Json → Output
  | .record fields => .ofFields fields
  | value => .other value

def Output.defaults : List (String × Json) :=
  [("atomic_write", .bool true), ("validate_before_write", .bool false)]

namespace Settings

/-- The settings that hold any value as it is given, by the names that records have for them. -/
def plain : List (String × (Settings → Json)) :=
  [("module_name", moduleName), ("factory_module", factoryModule),
    ("visitor_module", visitorModule), ("references", references),
    ("generation_comment", comment), ("output_filename", outputName),
    ("indent_unit", indentUnit), ("newline", newline)]

def defaults : List (String × Json) :=
  [("module_name", .text "ts"), ("factory_module", .text "Factory"),
    ("visitor_module", .text "Visitor"),
    ("references", .list [.text "parser.ts", .text "factory.ts"]),
    ("generation_comment", .text ""), ("output_filename", .text "factory.generated.ts"),
    ("indent_unit", .text "    "), ("newline", .text "\n")]

/-- A table with the values that a record gives in the place of its own. -/
def overridden (table fields : List (String × Json)) : List (String × Json) :=
  table.map fun entry => (entry.1, (Assoc.get? fields entry.1).getD entry.2)

/-- Reading one field gives its value to the plain setting that it names, and to no other. -/
theorem readField_plain {entry : String × (Settings → Json)} (listed : entry ∈ plain)
    (settings : Settings) (name : String) (value : Json) :
    entry.2 (settings.readField name value) =
      if name = entry.1 then value else entry.2 settings := by
  simp only [plain, List.mem_cons, List.not_mem_nil, or_false] at listed
  unfold readField
  split
  · rcases listed with rfl | rfl | rfl | rfl | rfl | rfl | rfl | rfl <;> rfl
  · unfold put
    split <;> rcases listed with rfl | rfl | rfl | rfl | rfl | rfl | rfl | rfl <;> simp_all

theorem readField_output (settings : Settings) (name : String) (value : Json) :
    (settings.readField name value).output =
      if name = "output" then .ofJson value else settings.output := by
  by_cases named : name = "output"
  · subst named
    cases value <;> rfl
  · rw [if_neg named]
    unfold readField
    split
    · exact absurd rfl named
    · unfold put
      split <;> simp_all

/-- What reading a field does to a setting, reading all fields does with the last value. -/
theorem foldl_readField {α : Type} {setting : Settings → α} {name : String} {read : Json → α}
    (each : ∀ (settings : Settings) (field : String) (value : Json),
      setting (settings.readField field value) =
        if field = name then read value else setting settings)
    (start : Settings) (fields : List (String × Json)) :
    setting (fields.foldl (fun settings field => settings.readField field.1 field.2) start) =
      fields.foldl (fun held field => if field.1 = name then read field.2 else held)
        (setting start) :=
  (List.foldl_hom setting fun settings field => (each settings field.1 field.2).symm).symm

/-- The names of a record of settings that are not names of settings. -/
def reserved : List String := ["__class__", "__weakref__", "__dict__"]

theorem Loaded.readField_of_not_reserved {name : String} (free : name ∉ reserved)
    (settings : Settings) (value : Json) :
    readField { settings } name value = .ok { settings := settings.readField name value } := by
  simp only [reserved, List.mem_cons, List.not_mem_nil, or_false, not_or] at free
  unfold readField
  dsimp only
  split
  · exact absurd rfl free.1
  · exact absurd rfl free.2.1
  · exact absurd rfl free.2.2
  · exact absurd rfl free.2.2
  · rfl
  · rfl

/-- A record without these names is read name by name. -/
theorem load_eq_ofJson {fields : List (String × Json)} (free : ∀ field ∈ fields, field.1 ∉ reserved) :
    load (.record fields) = ofJson (.record fields) := by
  have reads (start : Settings) :
      fields.foldlM (fun loaded field => Loaded.readField loaded field.1 field.2)
          ({ settings := start } : Loaded) =
        .ok { settings := fields.foldl (fun settings field =>
          settings.readField field.1 field.2) start } := by
    induction fields generalizing start with
    | nil => rfl
    | cons field rest ih =>
      obtain ⟨first, others⟩ := List.forall_mem_cons.mp free
      rw [List.foldlM_cons, Loaded.readField_of_not_reserved first, Outcome.ok_bind, ih others,
        List.foldl_cons]
  rw [load, ofJson, Json.asRecord, Outcome.ok_bind, Outcome.ok_bind, reads]
  rfl

variable {fields choices : List (String × Json)} {settings : Settings}

theorem plain_of_ofJson (made : ofJson (.record fields) = .ok settings)
    {entry : String × (Settings → Json)} (listed : entry ∈ plain) :
    entry.2 settings = Json.given fields entry.1 (entry.2 {}) := by
  rw [← Except.ok.inj made]
  exact @foldl_readField Json entry.2 entry.1 id (readField_plain listed) {} fields

theorem ofJson_given (fields : List (String × Json)) :
    ∃ settings, ofJson (.record fields) = .ok settings ∧
      settings.references = Json.given fields "references" (references {}) ∧
      settings.newline = Json.given fields "newline" (newline {}) ∧
      settings.indentUnit = Json.given fields "indent_unit" (indentUnit {}) := by
  obtain ⟨settings, made⟩ : ∃ settings, ofJson (.record fields) = .ok settings := ⟨_, rfl⟩
  have given {entry : String × (Settings → Json)} (listed : entry ∈ plain) :=
    plain_of_ofJson made listed
  exact ⟨settings, made, @given ("references", references) (by simp [plain]),
    @given ("newline", newline) (by simp [plain]),
    @given ("indent_unit", indentUnit) (by simp [plain])⟩

theorem overridden_of_ofJson (distinct : (Assoc.keys fields).Nodup)
    (made : ofJson (.record fields) = .ok settings) :
    plain.map (fun entry => (entry.1, entry.2 settings)) = overridden defaults fields := by
  have listed : defaults = plain.map fun entry => (entry.1, entry.2 {}) := rfl
  rw [overridden, listed, List.map_map]
  apply List.map_congr_left
  intro entry member
  rw [plain_of_ofJson made member, Json.given_of_distinct distinct]
  rfl

theorem output_of_ofJson (distinct : (Assoc.keys fields).Nodup)
    (chosen : (Assoc.get? fields "output").getD (.record []) = .record choices)
    (made : ofJson (.record fields) = .ok settings) : settings.output = .ofFields choices := by
  rw [← Except.ok.inj made, foldl_readField readField_output, Assoc.foldl_eq_get? distinct]
  cases given : Assoc.get? fields "output" with
  | none =>
    rw [given] at chosen
    cases chosen
    rfl
  | some value =>
    rw [given, Option.getD_some] at chosen
    rw [chosen]
    rfl

/-- Settings whose choices have the right form are shown as what they hold. -/
theorem toJson_of_choices {atomic validated : Json}
    (chosen : settings.output = .choices atomic validated) :
    settings.toJson = .ok (.record (plain.map (fun entry => (entry.1, entry.2 settings)) ++
      [("output", .record [("atomic_write", atomic), ("validate_before_write", validated)])])) := by
  unfold toJson
  rw [chosen]
  rfl

/-- Settings that can be shown are read back from what is shown. -/
theorem ofJson_of_toJson {shown : Json} (shows : settings.toJson = .ok shown) :
    ofJson shown = .ok settings := by
  obtain ⟨_, _, _, _, _, _, _, _, output⟩ := settings
  cases output with
  | other value => cases shows
  | choices atomic validated =>
    cases shows
    rfl

/-- A record that has each name once, and a record of choices if it has any, comes to settings. They
are shown as the defaults with what the record gives in their place, in whatever order it gives that
and whatever else it names. From what is shown they are read back, and so it is shown again. -/
theorem shown_overrides_defaults (fields choices : List (String × Json))
    (distinct : (Assoc.keys fields).Nodup)
    (chosen : (Assoc.get? fields "output").getD (.record []) = .record choices) :
    let shown : Json := .record (overridden defaults fields ++
      [("output", .record (overridden Output.defaults choices))])
    ∃ settings, ofJson (.record fields) = .ok settings ∧
      settings.toJson = .ok shown ∧
      ofJson shown = .ok settings ∧
      ofJson shown >>= toJson = .ok shown := by
  intro shown
  obtain ⟨settings, made⟩ : ∃ settings, ofJson (.record fields) = .ok settings := ⟨_, rfl⟩
  have shows : settings.toJson = .ok shown := by
    rw [toJson_of_choices (output_of_ofJson distinct chosen made),
      overridden_of_ofJson distinct made]
    rfl
  have back := ofJson_of_toJson shows
  refine ⟨settings, made, shows, back, ?_⟩
  rw [back]
  exact shows

def sampleChoices : List (String × Json) :=
  [("mode", .text "append"), ("validate_before_write", .number (.whole 1))]

def sampleFields : List (String × Json) :=
  [("output", .record sampleChoices), ("unknown_option", .bool true), ("newline", .null),
    ("references", .list [.text "types.ts"]), ("module_name", .text "compiler")]

theorem sample_shown_overrides_defaults :
    (Assoc.keys sampleFields).Nodup ∧
      ∃ settings, ofJson (.record sampleFields) = .ok settings ∧
        settings.toJson = .ok (.record [("module_name", .text "compiler"),
          ("factory_module", .text "Factory"), ("visitor_module", .text "Visitor"),
          ("references", .list [.text "types.ts"]), ("generation_comment", .text ""),
          ("output_filename", .text "factory.generated.ts"), ("indent_unit", .text "    "),
          ("newline", .null), ("output", .record [("atomic_write", .bool true),
            ("validate_before_write", .number (.whole 1))])]) := by
  have distinct : (Assoc.keys sampleFields).Nodup := by decide
  obtain ⟨settings, made, shows, -⟩ :=
    shown_overrides_defaults sampleFields sampleChoices distinct rfl
  exact ⟨distinct, settings, made, shows⟩

end Settings

end NodeSmith
