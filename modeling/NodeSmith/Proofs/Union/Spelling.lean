import Mathlib.Logic.Relation
import NodeSmith.Union

set_option autoImplicit false

namespace NodeSmith.Union

open Text (isBlank)

/-- Where a rule makes something of every text, only of an absent value nothing is made. -/
theorem ofValue_some_eq_none {α : Type} (rule : String → α) (value : Json) :
    ofValue (fun text => some (rule text)) value = .ok none ↔ value.present = false := by
  constructor
  · intro absent
    cases value with
    | text written =>
      rw [ofValue_text] at absent
      split at absent
      · rename_i empty
        rw [Json.present_text, empty]
        rfl
      · cases absent
    | null | bool | number | list | record =>
      simp only [ofValue] at absent
      split at absent
      · cases absent
      · rename_i missing
        exact eq_false_of_ne_true missing
  · exact ofValue_absent _ value

theorem keyOf_eq_none (value : Json) : keyOf value = .ok none ↔ value.present = false :=
  ofValue_some_eq_none key value

def canonicalOfKey (key : String) : Option String := if key = "" then none else some (spaced key)

theorem canonicalOf_eq (value : Json) :
    canonicalOf value = (keyOf value).map fun key => key.bind canonicalOfKey := by
  cases value with
  | text written =>
    rw [canonicalOf, keyOf, ofValue_text, ofValue_text]
    split <;> rfl
  | null | bool | number | list | record =>
    unfold canonicalOf keyOf ofValue
    dsimp only
    split <;> rfl

/-- Text with white space next to one of its bars, and the same text without it. -/
inductive Loosens : String → String → Prop
  | before (front back : List Char) (c : Char) (blank : isBlank c = true) :
    Loosens (String.ofList (front ++ c :: '|' :: back)) (String.ofList (front ++ '|' :: back))
  | after (front back : List Char) (c : Char) (blank : isBlank c = true) :
    Loosens (String.ofList (front ++ '|' :: c :: back)) (String.ofList (front ++ '|' :: back))

/-- Texts that differ by white space around bars. -/
abbrev Respaced : String → String → Prop := Relation.EqvGen Loosens

/-- Two scans that come to the same from any state on come to the same after a common start. -/
theorem separateFrom_append {separator first second : List Char}
    (same : ∀ passed, separateFrom separator passed first = separateFrom separator passed second)
    (front : List Char) (passed : Passed) :
    separateFrom separator passed (front ++ first) =
      separateFrom separator passed (front ++ second) := by
  induction front generalizing passed with
  | nil => exact same passed
  | cons c front ih =>
    rw [List.cons_append, List.cons_append]
    cases passed <;> simp only [separateFrom, ih]

theorem identifier_eq_of_loosens {first second : String} (loosens : Loosens first second) :
    identifier first = identifier second := by
  cases loosens with
  | before front back c blank =>
    simp only [identifier, separate, String.toList_ofList]
    congr 1
    apply separateFrom_append
    intro passed
    cases passed <;> simp only [separateFrom, Text.ne_bar_of_isBlank blank, blank, ↓reduceIte]
  | after front back c blank =>
    simp only [identifier, separate, String.toList_ofList]
    congr 1
    apply separateFrom_append
    intro passed
    cases passed <;> simp only [separateFrom, Text.ne_bar_of_isBlank blank, blank, ↓reduceIte]

/-- What does not tell a text from a looser one does not tell respaced texts apart. -/
theorem eq_of_respaced {α : Type} {measure : String → α} {first second : String}
    (loosens : ∀ loose tight, Loosens loose tight → measure loose = measure tight)
    (respaced : Respaced first second) : measure first = measure second := by
  induction respaced with
  | rel first second loosened => exact loosens first second loosened
  | refl text => rfl
  | symm first second _ ih => exact ih.symm
  | trans first second third _ _ ih further => exact ih.trans further

theorem identifier_eq_of_respaced {first second : String} (respaced : Respaced first second) :
    identifier first = identifier second := by
  apply eq_of_respaced _ respaced
  intro loose tight loosens
  exact identifier_eq_of_loosens loosens

/-- A text that is respaced has a bar in any case. -/
theorem isEmpty_eq_of_respaced {first second : String} (respaced : Respaced first second) :
    first.isEmpty = second.isEmpty := by
  have visible (front back : List Char) (c : Char) :
      (String.ofList (front ++ c :: back)).isEmpty = false := by
    rw [String.isEmpty_eq_false_iff]
    intro empty
    have none := String.toList_eq_nil_iff.mpr empty
    rw [String.toList_ofList] at none
    exact List.cons_ne_nil _ _ (List.append_eq_nil_iff.mp none).2
  apply eq_of_respaced _ respaced
  intro loose tight loosens
  cases loosens with
  | before front back c blank => rw [visible, visible]
  | after front back c blank => rw [visible, visible]

/-- Values that spell one name: they differ at most by white space around bars. -/
inductive Renames : Json → Json → Prop
  | same (value : Json) : Renames value value
  | text {first second : String} (respaced : Respaced first second) :
    Renames (.text first) (.text second)

variable {first second : Json}

theorem Renames.present_eq (renames : Renames first second) : first.present = second.present := by
  cases renames with
  | same => rfl
  | text respaced => rw [Json.present_text, Json.present_text, isEmpty_eq_of_respaced respaced]

theorem Renames.identifierOf_eq (renames : Renames first second) :
    identifierOf first = identifierOf second := by
  cases renames with
  | same => rfl
  | @text first second respaced =>
    have empty : first = "" ↔ second = "" := by
      rw [← String.isEmpty_iff, ← String.isEmpty_iff, isEmpty_eq_of_respaced respaced]
    rw [identifierOf, ofValue_text, identifierOf, ofValue_text,
      identifier_eq_of_respaced respaced]
    simp only [empty]

theorem present_congr (same : keyOf first = keyOf second) : first.present = second.present := by
  have absent : first.present = false ↔ second.present = false := by
    rw [← keyOf_eq_none, same, keyOf_eq_none]
  cases given : second.present with
  | false => exact absent.mpr given
  | true =>
    rw [given] at absent
    simpa using absent

theorem canonicalOf_congr (same : keyOf first = keyOf second) :
    canonicalOf first = canonicalOf second := by
  rw [canonicalOf_eq, same, ← canonicalOf_eq]

end NodeSmith.Union
