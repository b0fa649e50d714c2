import NodeSmith.Assoc

set_option autoImplicit false

namespace NodeSmith.Assoc

variable {κ α : Type} [DecidableEq κ]

theorem keys_insert (table : List (κ × α)) (key : κ) (value : α) :
    keys (insert table key value) =
      if key ∈ keys table then keys table else keys table ++ [key] := by
  induction table with
  | nil => rfl
  | cons pair rest ih =>
    obtain ⟨first, held⟩ := pair
    have listed : keys ((first, held) :: rest) = first :: keys rest := rfl
    by_cases same : first = key
    · subst same
      rw [insert, if_pos rfl, listed, if_pos List.mem_cons_self]
      rfl
    · have shorter : keys (insert ((first, held) :: rest) key value) =
          first :: keys (insert rest key value) := by
        rw [insert, if_neg same]
        rfl
      rw [shorter, ih, listed]
      by_cases known : key ∈ keys rest
      · rw [if_pos known, if_pos (List.mem_cons_of_mem _ known)]
      · have fresh : key ∉ first :: keys rest := by
          rw [List.mem_cons, not_or]
          exact ⟨Ne.symm same, known⟩
        rw [if_neg known, if_neg fresh, List.cons_append]

theorem insert_insert (table : List (κ × α)) (key : κ) (first second : α) :
    insert (insert table key first) key second = insert table key second := by
  induction table with
  | nil => simp only [insert, ↓reduceIte]
  | cons pair rest ih =>
    obtain ⟨other, held⟩ := pair
    by_cases same : other = key
    · simp only [insert, same, ↓reduceIte]
    · simp only [insert, same, ↓reduceIte, ih]

theorem isSome_get? (table : List (κ × α)) (key : κ) :
    (get? table key).isSome = decide (key ∈ keys table) := by
  induction table with
  | nil => rfl
  | cons pair rest ih =>
    obtain ⟨first, held⟩ := pair
    have listed : keys ((first, held) :: rest) = first :: keys rest := rfl
    by_cases same : first = key
    · subst same
      rw [get?, if_pos rfl, listed, Option.isSome_some]
      exact (decide_eq_true List.mem_cons_self).symm
    · rw [get?, if_neg same, ih, listed]
      simp only [List.mem_cons, Ne.symm same, false_or]

theorem isSome_get?_iff (table : List (κ × α)) (key : κ) :
    (get? table key).isSome = true ↔ key ∈ keys table := by
  rw [isSome_get?, decide_eq_true_iff]

/-- A new entry that is left out again leaves no trace. -/
theorem filter_insert_of_get?_eq_none [BEq κ] [LawfulBEq κ] {table : List (κ × α)} {key : κ}
    (absent : get? table key = none) (value : α) :
    (insert table key value).filter (fun pair => pair.1 != key) = table := by
  induction table with
  | nil =>
    rw [insert, List.filter_cons_of_neg (by simp only [bne_self_eq_false, Bool.false_eq_true,
      not_false_eq_true]), List.filter_nil]
  | cons pair rest ih =>
    obtain ⟨first, held⟩ := pair
    by_cases same : first = key
    · rw [get?, if_pos same] at absent
      cases absent
    · rw [get?, if_neg same] at absent
      rw [insert, if_neg same,
        List.filter_cons_of_pos (by simpa only [bne_iff_ne, ne_eq] using same), ih absent]

/-- Where every key is listed once, the last value under a key is the value under it. -/
theorem foldl_eq_get? {β : Type} {table : List (κ × α)} (distinct : (keys table).Nodup) (key : κ)
    (read : α → β) (default : β) :
    table.foldl (fun held pair => if pair.1 = key then read pair.2 else held) default =
      ((get? table key).map read).getD default := by
  induction table generalizing default with
  | nil => rfl
  | cons pair rest ih =>
    obtain ⟨first, held⟩ := pair
    obtain ⟨once, distinct⟩ := List.nodup_cons.mp distinct
    rw [List.foldl_cons, ih distinct, get?]
    by_cases same : first = key
    · subst same
      have absent : get? rest first = none := by
        rw [← Option.not_isSome_iff_eq_none, isSome_get?_iff]
        exact once
      simp only [absent, ↓reduceIte, Option.map_none, Option.map_some, Option.getD_none,
        Option.getD_some]
    · simp only [same, ↓reduceIte]

end NodeSmith.Assoc
