set_option autoImplicit false

namespace NodeSmith.Text

def Free (sort : Char → Bool) (text : String) : Prop := ∀ c ∈ text.toList, sort c = false

instance (sort : Char → Bool) (text : String) : Decidable (Free sort text) :=
  decidable_of_iff (text.toList.all (fun c => !sort c) = true) <| by
    simp only [Free, List.all_eq_true, Bool.not_eq_true']

variable {sort : Char → Bool}

theorem free_append {first second : String} :
    Free sort (first ++ second) ↔ Free sort first ∧ Free sort second := by
  simp only [Free, String.toList_append, List.mem_append, or_imp, forall_and]

theorem free_empty : Free sort "" := by
  intro c member
  rw [String.toList_eq_nil_iff.mpr rfl] at member
  exact absurd member List.not_mem_nil

theorem free_intercalate {separator : String} {texts : List String}
    (between : Free sort separator) (each : ∀ text ∈ texts, Free sort text) :
    Free sort (separator.intercalate texts) := by
  induction texts with
  | nil =>
    rw [String.intercalate_nil]
    exact free_empty
  | cons first rest ih =>
    have shorter := ih fun text member => each text (List.mem_cons_of_mem _ member)
    cases rest with
    | nil =>
      rw [String.intercalate_singleton]
      exact each first List.mem_cons_self
    | cons second rest =>
      rw [String.intercalate_cons_cons, free_append, free_append]
      exact ⟨⟨each first List.mem_cons_self, between⟩, shorter⟩

theorem filter_of_free {text : String} (free : Free sort text) : text.toList.filter sort = [] := by
  rw [List.filter_eq_nil_iff]
  intro c member
  simp only [free c member, Bool.false_eq_true, not_false_eq_true]

theorem Free.mono {wider : Char → Bool} {text : String} (free : Free wider text)
    (within : ∀ c, sort c = true → wider c = true) : Free sort text := by
  intro c member
  cases picked : sort c with
  | false => rfl
  | true => exact (within c picked).symm.trans (free c member)

end NodeSmith.Text
