import NodeSmith.Proofs.Text.Free
import NodeSmith.Text.Break
import NodeSmith.Union

set_option autoImplicit false

namespace NodeSmith.Union

open Text (Free isBlank isBreak)

/-- White space that a scan still holds. -/
def Passed.held : Passed → List Char
  | .bar => []
  | .blanks held => held

/-- Where a character that a scan for separators puts out can be from: the separator, the text less
its bars, or what was held. -/
def Drawn (separator chars held : List Char) (c : Char) : Prop :=
  c ∈ separator ∨ (c ∈ chars ∧ c ≠ '|') ∨ c ∈ held

theorem Drawn.read {separator rest held : List Char} {c d : Char}
    (drawn : Drawn separator rest [] c) : Drawn separator (d :: rest) held c := by
  rcases drawn with added | ⟨member, other⟩ | impossible
  · exact .inl added
  · exact .inr (.inl ⟨List.mem_cons_of_mem _ member, other⟩)
  · exact absurd impossible List.not_mem_nil

theorem drawn_of_mem_separateFrom {separator chars : List Char} {passed : Passed} {c : Char}
    (member : c ∈ separateFrom separator passed chars) :
    Drawn separator chars passed.held c := by
  fun_induction separateFrom separator passed chars with
  | case1 => exact absurd member List.not_mem_nil
  | case2 held => exact .inr (.inr member)
  | case3 rest ih =>
    rcases List.mem_append.mp member with added | later
    · exact .inl added
    · exact (ih later).read
  | case4 d rest _ _ ih => exact (ih member).read
  | case5 d rest other _ ih =>
    rcases List.mem_cons.mp member with rfl | later
    · exact .inr (.inl ⟨List.mem_cons_self, other⟩)
    · exact (ih later).read
  | case6 rest held ih =>
    rcases List.mem_append.mp member with added | later
    · exact .inl added
    · exact (ih later).read
  | case7 held d rest other _ ih =>
    rcases ih member with added | ⟨later, visible⟩ | kept
    · exact .inl added
    · exact .inr (.inl ⟨List.mem_cons_of_mem _ later, visible⟩)
    · rcases List.mem_append.mp kept with before | last
      · exact .inr (.inr before)
      · rw [List.mem_singleton.mp last]
        exact .inr (.inl ⟨List.mem_cons_self, other⟩)
  | case8 held d rest other _ ih =>
    rcases List.mem_append.mp member with before | later
    · exact .inr (.inr before)
    · rcases List.mem_cons.mp later with rfl | later
      · exact .inr (.inl ⟨List.mem_cons_self, other⟩)
      · exact (ih later).read

/-- A separated text has the characters of the separator, and those of the text less its bars. -/
theorem mem_separate {separator text : String} {c : Char}
    (member : c ∈ (separate separator text).toList) :
    c ∈ separator.toList ∨ (c ∈ text.toList ∧ c ≠ '|') := by
  rw [separate, String.toList_ofList] at member
  rcases drawn_of_mem_separateFrom member with added | read | kept
  · exact .inl added
  · exact .inr read
  · exact absurd kept List.not_mem_nil

theorem bar_not_mem_identifier (text : String) : '|' ∉ (identifier text).toList := by
  intro member
  rcases mem_separate member with added | ⟨-, other⟩
  · exact absurd added (by decide)
  · exact other rfl

private theorem mem_intercalate {α : Type} {separator piece : List α} {pieces : List (List α)}
    {item : α} (found : piece ∈ pieces) (member : item ∈ piece) :
    item ∈ separator.intercalate pieces := by
  induction pieces with
  | nil => exact absurd found List.not_mem_nil
  | cons first rest ih =>
    cases rest with
    | nil =>
      rw [List.mem_singleton.mp found] at member
      rwa [List.intercalate_singleton]
    | cons second rest =>
      rw [List.intercalate_cons_cons, List.mem_append, List.mem_append]
      rcases List.mem_cons.mp found with rfl | later
      · exact .inl (.inl member)
      · exact .inr (ih later)

theorem mem_of_mem_segments {text segment : String} {c : Char} (found : segment ∈ segments text)
    (member : c ∈ segment.toList) : c ∈ text.toList := by
  obtain ⟨chars, piece, rfl⟩ := List.mem_map.mp found
  have joined : ['|'].intercalate (text.toList.splitOn '|') = text.toList :=
    List.intercalate_splitOn '|'
  rw [String.toList_ofList] at member
  rw [← joined]
  exact mem_intercalate piece member

theorem key_free_blank (text : String) : Free isBlank (key text) := by
  apply Text.free_intercalate
  · decide
  · intro segment found c member
    have read := mem_of_mem_segments ((sorted_perm _).mem_iff.mp found) member
    rw [Text.toList_removeBlanks, List.mem_filter] at read
    simpa only [Bool.not_eq_true'] using read.2

/-- White space in a canonical form is single blanks. -/
theorem eq_space_of_mem_canonical {text shown : String} (canonical : canonical text = some shown)
    {c : Char} (member : c ∈ shown.toList) (blank : isBlank c = true) : c = ' ' := by
  rw [Union.canonical] at canonical
  split at canonical
  · cases canonical
  · cases canonical
    rcases mem_separate member with added | ⟨read, -⟩
    · have either : c = ' ' ∨ c = '|' ∨ c = ' ' := by simpa using added
      rcases either with rfl | rfl | rfl
      · rfl
      · cases blank
      · rfl
    · rw [key_free_blank text c read] at blank
      cases blank

theorem isBlank_of_isBreak {c : Char} (broken : isBreak c = true) : isBlank c = true := by
  rw [isBreak, Bool.or_eq_true, beq_iff_eq, beq_iff_eq] at broken
  rcases broken with rfl | rfl <;> rfl

theorem canonical_unbroken {text shown : String} (canonical : canonical text = some shown) :
    Free isBreak shown := by
  intro c member
  cases broken : isBreak c with
  | false => rfl
  | true =>
    rw [eq_space_of_mem_canonical canonical member (isBlank_of_isBreak broken)] at broken
    cases broken

end NodeSmith.Union
