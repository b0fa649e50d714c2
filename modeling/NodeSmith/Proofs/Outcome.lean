import Mathlib.Data.List.Forall2
import NodeSmith.Fault

set_option autoImplicit false

namespace NodeSmith.Outcome

variable {α β γ δ : Type}

theorem ok_bind (value : α) (next : α → Except Fault β) :
    (Except.ok value >>= next) = next value := rfl

theorem bind_eq_ok {first : Except Fault α} {next : α → Except Fault β} {result : β} :
    first >>= next = .ok result ↔ ∃ value, first = .ok value ∧ next value = .ok result := by
  cases first with
  | error fault =>
    constructor
    · intro impossible
      cases impossible
    · rintro ⟨value, impossible, -⟩
      cases impossible
  | ok value =>
    constructor
    · intro ends
      exact ⟨value, rfl, ends⟩
    · rintro ⟨other, same, ends⟩
      cases same
      exact ends

theorem pure_eq_ok {value result : α} : (pure value : Except Fault α) = .ok result ↔
    value = result := by
  constructor
  · exact Except.ok.inj
  · rintro rfl
    rfl

theorem forall₂_of_mapM_eq_ok {compute : α → Except Fault β} {values : List α} {results : List β}
    (computed : values.mapM compute = .ok results) :
    List.Forall₂ (fun value result => compute value = .ok result) values results := by
  induction values generalizing results with
  | nil =>
    rw [List.mapM_nil, pure_eq_ok] at computed
    subst computed
    exact .nil
  | cons value rest ih =>
    rw [List.mapM_cons, bind_eq_ok] at computed
    obtain ⟨first, firstComputed, computed⟩ := computed
    rw [bind_eq_ok] at computed
    obtain ⟨more, moreComputed, computed⟩ := computed
    rw [pure_eq_ok] at computed
    subst computed
    exact .cons firstComputed (ih moreComputed)

theorem mapM_eq_ok_of_forall₂ {compute : α → Except Fault β} {values : List α} {results : List β}
    (each : List.Forall₂ (fun value result => compute value = .ok result) values results) :
    values.mapM compute = .ok results := by
  induction each with
  | nil => rfl
  | cons computed _ ih =>
    rw [List.mapM_cons, computed, ok_bind, ih]
    rfl

theorem exists_of_mem_right {related : α → β → Prop} {lefts : List α} {rights : List β}
    (paired : List.Forall₂ related lefts rights) {right : β} (member : right ∈ rights) :
    ∃ left ∈ lefts, related left right := by
  induction paired with
  | nil => exact absurd member List.not_mem_nil
  | cons pair _ ih =>
    rcases List.mem_cons.mp member with rfl | later
    · exact ⟨_, List.mem_cons_self, pair⟩
    · obtain ⟨left, found, related⟩ := ih later
      exact ⟨left, List.mem_cons_of_mem _ found, related⟩

/-- Where the two values of each pair agree about their properties, so do the lists. -/
theorem forall_iff_of_forall₂ {related : α → β → Prop} {lefts : List α} {rights : List β}
    {left : α → Prop} {right : β → Prop} (paired : List.Forall₂ related lefts rights)
    (each : ∀ first second, related first second → (right second ↔ left first)) :
    (∀ second ∈ rights, right second) ↔ ∀ first ∈ lefts, left first := by
  induction paired with
  | nil => exact ⟨fun _ => List.forall_mem_nil _, fun _ => List.forall_mem_nil _⟩
  | cons pair _ ih => rw [List.forall_mem_cons, List.forall_mem_cons, ih, each _ _ pair]

/-- Where the two values of each pair agree about their properties, one of the lists has a value
with its property exactly if the other has. -/
theorem exists_iff_of_forall₂ {related : α → β → Prop} {lefts : List α} {rights : List β}
    {left : α → Prop} {right : β → Prop} (paired : List.Forall₂ related lefts rights)
    (each : ∀ first second, related first second → (right second ↔ left first)) :
    (∃ second ∈ rights, right second) ↔ ∃ first ∈ lefts, left first := by
  induction paired with
  | nil => simp only [List.not_mem_nil, false_and, exists_false]
  | cons pair _ ih => rw [List.exists_mem_cons_iff, List.exists_mem_cons_iff, ih, each _ _ pair]

theorem forall₂_trans {first : α → β → Prop} {second : β → γ → Prop} {both : α → γ → Prop}
    {lefts : List α} {middles : List β} {rights : List γ}
    (one : List.Forall₂ first lefts middles) (other : List.Forall₂ second middles rights)
    (each : ∀ left middle, ∀ right ∈ rights, first left middle → second middle right →
      both left right) : List.Forall₂ both lefts rights := by
  induction one generalizing rights with
  | nil =>
    cases other
    exact .nil
  | cons pair _ ih =>
    cases other with
    | cons next rest =>
      refine .cons (each _ _ _ List.mem_cons_self pair next) (ih rest ?_)
      intro left middle right later
      exact each left middle right (List.mem_cons_of_mem _ later)

/-- Two outcomes are the same fault, or related values. -/
inductive Alike (related : α → β → Prop) : Except Fault α → Except Fault β → Prop
  | error (fault : Fault) : Alike related (.error fault) (.error fault)
  | ok {first : α} {second : β} (pair : related first second) :
    Alike related (.ok first) (.ok second)

namespace Alike

variable {related : α → β → Prop} {further : γ → δ → Prop}

theorem refl {same : α → α → Prop} (reflexive : ∀ value, same value value)
    (outcome : Except Fault α) : Alike same outcome outcome := by
  cases outcome with
  | error fault => exact .error fault
  | ok value => exact .ok (reflexive value)

theorem bind {first : Except Fault α} {second : Except Fault β} {next : α → Except Fault γ}
    {other : β → Except Fault δ} (alike : Alike related first second)
    (onward : ∀ left right, related left right → Alike further (next left) (other right)) :
    Alike further (first >>= next) (second >>= other) := by
  cases alike with
  | error fault => exact .error fault
  | ok pair => exact onward _ _ pair

theorem bind_same {outcome : Except Fault α} {next : α → Except Fault γ}
    {other : α → Except Fault δ} (onward : ∀ value, Alike further (next value) (other value)) :
    Alike further (outcome >>= next) (outcome >>= other) := by
  cases outcome with
  | error fault => exact .error fault
  | ok value => exact onward value

/-- Two lists of values that go alike one by one go alike as a whole. -/
theorem mapM {sources : γ → δ → Prop} {compute : γ → Except Fault α} {other : δ → Except Fault β}
    {lefts : List γ} {rights : List δ} (paired : List.Forall₂ sources lefts rights)
    (each : ∀ left right, sources left right → Alike related (compute left) (other right)) :
    Alike (List.Forall₂ related) (lefts.mapM compute) (rights.mapM other) := by
  induction paired with
  | nil => exact .ok .nil
  | cons pair _ ih =>
    rw [List.mapM_cons, List.mapM_cons]
    refine (each _ _ pair).bind ?_
    intro left right here
    refine ih.bind ?_
    intro lefts rights rest
    exact .ok (.cons here rest)

theorem eq {first second : Except Fault α} (alike : Alike Eq first second) : first = second := by
  cases alike with
  | error fault => rfl
  | ok pair => rw [pair]

theorem of_eq {first second : Except Fault α} (same : first = second) : Alike Eq first second := by
  rw [same]
  exact refl (fun _ => rfl) second

end Alike

/-- An outcome reports faults: it is the first of them, or a value where there are none. -/
def Reports (faults : List Fault) : Except Fault α → Prop
  | .ok _ => faults = []
  | .error fault => faults.head? = some fault

namespace Reports

variable {faults more : List Fault} {outcome : Except Fault α}

theorem bind {next : α → Except Fault β} (reports : Reports faults outcome)
    (onward : ∀ value, outcome = .ok value → Reports more (next value)) :
    Reports (faults ++ more) (outcome >>= next) := by
  cases outcome with
  | error fault =>
    have first : faults.head? = some fault := reports
    change (faults ++ more).head? = some fault
    rw [List.head?_append, first, Option.some_or]
  | ok value =>
    rw [Reports] at reports
    rw [reports, List.nil_append]
    exact onward value rfl

theorem map (reports : Reports faults outcome) (apply : α → β) :
    Reports faults (outcome.map apply) := by
  cases outcome with
  | error fault => exact reports
  | ok value => exact reports

/-- A list of computations reports the faults of each, in order. -/
theorem mapM {compute : γ → Except Fault α} {each : γ → List Fault} {values : List γ}
    (reports : ∀ value ∈ values, Reports (each value) (compute value)) :
    Reports (values.flatMap each) (values.mapM compute) := by
  induction values with
  | nil => rfl
  | cons value rest ih =>
    have later := ih fun other member => reports other (List.mem_cons_of_mem _ member)
    rw [List.mapM_cons, List.flatMap_cons]
    exact (reports value List.mem_cons_self).bind fun first _ => later.map (first :: ·)

theorem exists_ok_iff (reports : Reports faults outcome) :
    (∃ value, outcome = .ok value) ↔ faults = [] := by
  cases outcome with
  | error fault =>
    constructor
    · rintro ⟨value, impossible⟩
      cases impossible
    · rintro rfl
      cases reports
  | ok value => exact ⟨fun _ => reports, fun _ => ⟨value, rfl⟩⟩

theorem mem {fault : Fault} (reports : Reports faults outcome) (fails : outcome = .error fault) :
    fault ∈ faults := by
  rw [fails] at reports
  exact List.mem_of_head? reports

end Reports

end NodeSmith.Outcome
