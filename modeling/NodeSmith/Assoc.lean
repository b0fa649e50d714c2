set_option autoImplicit false

namespace NodeSmith.Assoc

variable {κ α : Type} [DecidableEq κ]

/-- Stores a value under a key, in the key's old place if it has one and at the end if not. -/
def insert : List (κ × α) → κ → α → List (κ × α)
  | [], key, value => [(key, value)]
  | (other, held) :: rest, key, value =>
    if other = key then (other, value) :: rest else (other, held) :: insert rest key value

def get? : List (κ × α) → κ → Option α
  | [], _ => none
  | (other, held) :: rest, key => if other = key then some held else get? rest key

/-- The table that a sequence of insertions leaves. -/
def ofPairs (pairs : List (κ × α)) : List (κ × α) :=
  pairs.foldl (fun table pair => insert table pair.1 pair.2) []

def keys (table : List (κ × α)) : List κ := table.map Prod.fst

@[simp] theorem get?_nil (key : κ) : get? ([] : List (κ × α)) key = none := rfl

theorem get?_insert (table : List (κ × α)) (key other : κ) (value : α) :
    get? (insert table key value) other = if key = other then some value else get? table other := by
  induction table with
  | nil => simp only [insert, get?]
  | cons pair rest ih =>
    obtain ⟨first, held⟩ := pair
    by_cases same : first = key
    · subst same
      simp only [insert, ↓reduceIte, get?]
      split <;> rfl
    · simp only [insert, same, ↓reduceIte, get?, ih]
      by_cases here : first = other
      · subst here
        simp only [↓reduceIte, Ne.symm same]
      · simp only [here, ↓reduceIte]

end NodeSmith.Assoc
