import NodeSmith.Proofs.Text.Free

set_option autoImplicit false

namespace NodeSmith.Text

/-- The stretches between occurrences of a separator, taken from the left, after a number of
characters that belong to an occurrence already. -/
def partsFrom (separator : List Char) : Nat → List Char → List (List Char)
  | _, [] => [[]]
  | skipped + 1, _ :: rest => partsFrom separator skipped rest
  | 0, c :: rest =>
    if separator.isPrefixOf (c :: rest) then
      [] :: partsFrom separator (separator.length - 1) rest
    else (partsFrom separator 0 rest).modifyHead (c :: ·)

/-- The parts of a text between occurrences of a separator. -/
def parts (separator text : String) : List String :=
  (partsFrom separator.toList 0 text.toList).map String.ofList

abbrev Lacks (a : Char) (text : String) : Prop := Free (· == a) text

theorem lacks_iff {a : Char} {text : String} : Lacks a text ↔ a ∉ text.toList := by
  constructor
  · intro lacks member
    have other : (a == a) = false := lacks a member
    rw [beq_self_eq_true] at other
    cases other
  · intro absent c member
    rw [beq_eq_false_iff_ne]
    rintro rfl
    exact absent member

theorem not_mem_of_mem_splitOn {mark : Char} {chars piece : List Char}
    (found : piece ∈ chars.splitOn mark) : mark ∉ piece := by
  induction chars generalizing piece with
  | nil =>
    rw [List.splitOn_nil, List.mem_singleton] at found
    rw [found]
    exact List.not_mem_nil
  | cons c rest ih =>
    rw [List.splitOn_cons_eq_if_modifyHead] at found
    by_cases cut : c = mark
    · simp only [cut, beq_self_eq_true, ↓reduceIte, List.mem_cons] at found
      rcases found with rfl | later
      · exact List.not_mem_nil
      · exact ih later
    · obtain ⟨first, more, split⟩ := List.exists_cons_of_ne_nil (List.splitOn_ne_nil mark rest)
      have before : mark ∉ first := ih (by rw [split]; exact List.mem_cons_self)
      simp only [beq_iff_eq, cut, ↓reduceIte, split, List.modifyHead_cons, List.mem_cons] at found
      rcases found with rfl | later
      · rw [List.mem_cons, not_or]
        exact ⟨Ne.symm cut, before⟩
      · exact ih (by rw [split]; exact List.mem_cons_of_mem _ later)

def Apart (a b : Char) (text : String) : Prop := ¬ [a, b] <:+: text.toList

theorem apart_of_first {a b : Char} {text : String} (lacks : Lacks a text) : Apart a b text := by
  intro adjacent
  exact lacks_iff.mp lacks (adjacent.subset List.mem_cons_self)

theorem apart_of_second {a b : Char} {text : String} (lacks : Lacks b text) : Apart a b text := by
  intro adjacent
  exact lacks_iff.mp lacks (adjacent.subset (List.mem_cons_of_mem _ List.mem_cons_self))

/-- Two texts do not bring the characters together where the first or the second of these has none
to bring. -/
theorem Apart.append {a b : Char} {front back : String} (first : Apart a b front)
    (second : Apart a b back) (junction : Lacks a front ∨ Lacks b back) :
    Apart a b (front ++ back) := by
  rw [lacks_iff, lacks_iff] at junction
  unfold Apart at *
  rw [String.toList_append]
  generalize front.toList = chars at first junction
  induction chars with
  | nil => exact second
  | cons c rest ih =>
    rw [List.infix_cons_iff, not_or] at first
    rw [List.cons_append, List.infix_cons_iff, not_or]
    refine ⟨?_, ih first.2 (junction.imp_left fun absent member =>
      absent (List.mem_cons_of_mem _ member))⟩
    intro here
    obtain ⟨same, next⟩ := List.cons_prefix_cons.mp here
    cases rest with
    | nil =>
      rcases junction with absent | absent
      · exact absent (List.mem_cons.mpr (.inl same))
      · exact absent (next.subset List.mem_cons_self)
    | cons d rest =>
      have following := (List.cons_prefix_cons.mp next).1
      exact first.1 ⟨rest, by rw [same, following]; rfl⟩

theorem Apart.after {a b : Char} {front back : String} (lacks : Lacks a front)
    (apart : Apart a b back) : Apart a b (front ++ back) :=
  (apart_of_first lacks).append apart (.inl lacks)

theorem partsFrom_skip (separator passed rest : List Char) :
    partsFrom separator passed.length (passed ++ rest) = partsFrom separator 0 rest := by
  induction passed with
  | nil => rfl
  | cons c passed ih => exact ih

section Joined

variable {a b : Char} {tail : List Char} (distinct : a ≠ b)
include distinct

/-- A piece ends where the separator after it begins. -/
theorem partsFrom_append {piece : List Char} (rest : List Char) (apart : ¬ [a, b] <:+: piece) :
    partsFrom (a :: b :: tail) 0 (piece ++ (a :: b :: tail) ++ rest) =
      piece :: partsFrom (a :: b :: tail) 0 rest := by
  induction piece with
  | nil =>
    have here : (a :: b :: tail).isPrefixOf (a :: (b :: tail ++ rest)) = true := by
      rw [List.isPrefixOf_iff_prefix]
      exact List.prefix_append (a :: b :: tail) rest
    have skip := partsFrom_skip (a :: b :: tail) (b :: tail) rest
    rw [List.nil_append, List.cons_append, partsFrom, if_pos here]
    exact congrArg _ skip
  | cons c piece ih =>
    rw [List.infix_cons_iff, not_or] at apart
    -- An occurrence here would need its second character next, in the piece or as the first one
    -- of the separator.
    have elsewhere :
        ¬ (a :: b :: tail).isPrefixOf (c :: (piece ++ (a :: b :: tail) ++ rest)) = true := by
      rw [List.isPrefixOf_iff_prefix, List.cons_prefix_cons]
      rintro ⟨rfl, next⟩
      cases piece with
      | nil => exact distinct (List.cons_prefix_cons.mp next).1.symm
      | cons d piece =>
        have second := (List.cons_prefix_cons.mp next).1
        subst second
        exact apart.1 ⟨piece, rfl⟩
    rw [List.cons_append, List.cons_append, partsFrom, if_neg elsewhere, ih apart.2]
    rfl

omit distinct in
theorem partsFrom_of_apart {piece : List Char} (apart : ¬ [a, b] <:+: piece) :
    partsFrom (a :: b :: tail) 0 piece = [piece] := by
  induction piece with
  | nil => rfl
  | cons c piece ih =>
    rw [List.infix_cons_iff, not_or] at apart
    have elsewhere : ¬ (a :: b :: tail).isPrefixOf (c :: piece) = true := by
      rw [List.isPrefixOf_iff_prefix]
      intro here
      exact apart.1 (List.IsPrefix.trans ⟨tail, rfl⟩ here)
    rw [partsFrom, if_neg elsewhere, ih apart.2]
    rfl

/-- Pieces that are joined come apart again. -/
theorem parts_intercalate {separator : String} (spelled : separator.toList = a :: b :: tail)
    {pieces : List String} (some : pieces ≠ []) (apart : ∀ piece ∈ pieces, Apart a b piece) :
    parts separator (separator.intercalate pieces) = pieces := by
  induction pieces with
  | nil => exact absurd rfl some
  | cons first rest ih =>
    have own := apart first List.mem_cons_self
    cases rest with
    | nil =>
      rw [String.intercalate_singleton, parts, spelled, partsFrom_of_apart own,
        List.map_singleton, String.ofList_toList]
    | cons second rest =>
      have shorter := ih (List.cons_ne_nil _ _) fun piece member =>
        apart piece (List.mem_cons_of_mem _ member)
      rw [String.intercalate_cons_cons, parts, String.toList_append, String.toList_append, spelled,
        partsFrom_append distinct _ own, List.map_cons, String.ofList_toList, ← spelled, ← parts,
        shorter]

end Joined

end NodeSmith.Text
