import Mathlib.Combinatorics.Enumerative.DyckWord
import NodeSmith.Proofs.Text.Free

set_option autoImplicit false

namespace NodeSmith.Text

def isBrace (c : Char) : Bool := c == '{' || c == '}'

def braceStep (c : Char) : Option DyckStep :=
  if c = '{' then some .U else if c = '}' then some .D else none

def braceSteps (chars : List Char) : List DyckStep := chars.filterMap braceStep

/-- The steps of a Dyck word. -/
def Nested (steps : List DyckStep) : Prop := ∃ word : DyckWord, steps = word.toList

theorem braceStep_eq_none (c : Char) : braceStep c = none ↔ isBrace c = false := by
  rw [isBrace, Bool.or_eq_false_iff, beq_eq_false_iff_ne, beq_eq_false_iff_ne, braceStep]
  by_cases opens : c = '{'
  · simp only [opens, ↓reduceIte, reduceCtorEq, ne_eq, not_true_eq_false, false_and]
  · by_cases closes : c = '}'
    · simp only [closes, Char.reduceEq, ↓reduceIte, reduceCtorEq, ne_eq, not_true_eq_false,
        and_false]
    · simp only [opens, closes, ↓reduceIte, ne_eq, not_false_eq_true, and_self]

theorem braceSteps_append (first second : List Char) :
    braceSteps (first ++ second) = braceSteps first ++ braceSteps second := List.filterMap_append

theorem braceSteps_of_free {text : String} (free : Free isBrace text) :
    braceSteps text.toList = [] := by
  rw [braceSteps, List.filterMap_eq_nil_iff]
  intro c member
  exact (braceStep_eq_none c).mpr (free c member)

theorem braceSteps_append_of_free {front : String} (free : Free isBrace front) (last : String) :
    braceSteps (front ++ last).toList = braceSteps last.toList := by
  rw [String.toList_append, braceSteps_append, braceSteps_of_free free, List.nil_append]

theorem braceSteps_filter {keep : Char → Bool} (chars : List Char)
    (braces : ∀ c, keep c = false → isBrace c = false) :
    braceSteps (chars.filter keep) = braceSteps chars := by
  rw [braceSteps, List.filterMap_filter, braceSteps]
  congr 1
  funext c
  cases kept : keep c with
  | true => rfl
  | false =>
    rw [(braceStep_eq_none c).mpr (braces c kept)]
    rfl

/-- The braces that stand for a step are as many as those steps. -/
theorem count_braceSteps {step : DyckStep} {brace : Char}
    (stands : ∀ c, braceStep c = some step ↔ c = brace) (chars : List Char) :
    (braceSteps chars).count step = chars.count brace := by
  rw [braceSteps, List.count_filterMap, List.count]
  apply List.countP_congr
  intro c _
  rw [beq_iff_eq, beq_iff_eq]
  exact stands c

theorem braceStep_eq_up (c : Char) : braceStep c = some .U ↔ c = '{' := by
  unfold braceStep
  split
  · simp only [*]
  · split <;> simp_all only [Option.some.injEq, reduceCtorEq]

theorem braceStep_eq_down (c : Char) : braceStep c = some .D ↔ c = '}' := by
  unfold braceStep
  split
  · simp_all only [Option.some.injEq, reduceCtorEq, Char.reduceEq]
  · split <;> simp_all only [reduceCtorEq]

namespace Nested

variable {first second steps : List DyckStep}

theorem nil : Nested [] := ⟨0, rfl⟩

theorem append (nested : Nested first) (further : Nested second) : Nested (first ++ second) := by
  obtain ⟨front, rfl⟩ := nested
  obtain ⟨back, rfl⟩ := further
  exact ⟨front + back, rfl⟩

theorem block (nested : Nested steps) : Nested (DyckStep.U :: steps ++ [DyckStep.D]) := by
  obtain ⟨word, rfl⟩ := nested
  exact ⟨word.nest, rfl⟩

variable {chars : List Char}

/-- No prefix closes more braces than it opens. -/
theorem count_le (nested : Nested (braceSteps chars)) {front : List Char}
    (prefixed : front <+: chars) : front.count '}' ≤ front.count '{' := by
  obtain ⟨word, spelled⟩ := nested
  obtain ⟨back, rfl⟩ := prefixed
  rw [braceSteps_append] at spelled
  have bounded := word.count_D_le_count_U (braceSteps front).length
  rw [← spelled, List.take_left] at bounded
  rwa [← count_braceSteps braceStep_eq_up, ← count_braceSteps braceStep_eq_down]

/-- As many braces are closed as are opened. -/
theorem count_eq (nested : Nested (braceSteps chars)) : chars.count '{' = chars.count '}' := by
  obtain ⟨word, spelled⟩ := nested
  rw [← count_braceSteps braceStep_eq_up, ← count_braceSteps braceStep_eq_down, spelled]
  exact word.count_U_eq_count_D

end Nested

end NodeSmith.Text
