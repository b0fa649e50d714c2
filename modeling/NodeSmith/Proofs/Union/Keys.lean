import NodeSmith.Proofs.Text.Parts
import NodeSmith.Proofs.Union.Characters

set_option autoImplicit false

namespace NodeSmith.Text

/-- A text with a character that is not white space. -/
def Visible (text : String) : Prop := ∃ c ∈ text.toList, isBlank c = false

theorem Visible.ne_empty {text : String} (visible : Visible text) : text ≠ "" := by
  rintro rfl
  obtain ⟨c, member, -⟩ := visible
  rw [String.toList_empty] at member
  exact List.not_mem_nil member

theorem removeBlanks_eq_empty_iff (text : String) : removeBlanks text = "" ↔ ¬Visible text := by
  rw [← String.toList_eq_nil_iff, toList_removeBlanks, List.filter_eq_nil_iff]
  simp only [Visible, Bool.not_eq_true', Bool.not_eq_false, not_exists, not_and]

theorem free_removeBlanks (text : String) : Free isBlank (removeBlanks text) := by
  intro c member
  rw [toList_removeBlanks, List.mem_filter] at member
  simpa only [Bool.not_eq_true'] using member.2

theorem removeBlanks_of_free {text : String} (free : Free isBlank text) :
    removeBlanks text = text := by
  have whole : text.toList.filter (fun c => !isBlank c) = text.toList := by
    rw [List.filter_eq_self]
    intro c member
    rw [free c member]
    rfl
  rw [removeBlanks, whole, String.ofList_toList]

end NodeSmith.Text

namespace NodeSmith.Union

open Text (isBlank removeBlanks)

/-- The stretches between the bars of a text, each without its white space. -/
def tightSegments (text : String) : List String := (segments text).map removeBlanks

/-- Texts that list the same members as often. -/
def SameMembers (first second : String) : Prop := (tightSegments first).Perm (tightSegments second)

instance (first second : String) : Decidable (SameMembers first second) :=
  inferInstanceAs (Decidable (List.Perm _ _))

/-- A filter that keeps bars leaves them where they are. -/
theorem splitOn_filter {keep : Char → Bool} (bar : keep '|' = true) (chars : List Char) :
    (chars.filter keep).splitOn '|' = (chars.splitOn '|').map (List.filter keep) := by
  induction chars with
  | nil => rfl
  | cons c rest ih =>
    rw [List.splitOn_cons_eq_if_modifyHead]
    by_cases cut : c = '|'
    · subst cut
      rw [List.filter_cons_of_pos bar, List.splitOn_cons_eq_if_modifyHead, ih]
      simp only [beq_self_eq_true, ↓reduceIte, List.map_cons, List.filter_nil]
    · obtain ⟨first, more, split⟩ := List.exists_cons_of_ne_nil (List.splitOn_ne_nil '|' rest)
      rw [split, List.map_cons] at ih
      simp only [beq_iff_eq, cut, ↓reduceIte, split, List.modifyHead_cons, List.map_cons]
      by_cases kept : keep c = true
      · rw [List.filter_cons_of_pos kept, List.filter_cons_of_pos kept,
          List.splitOn_cons_eq_if_modifyHead, ih]
        simp only [beq_iff_eq, cut, ↓reduceIte, List.modifyHead_cons]
      · rw [List.filter_cons_of_neg kept, List.filter_cons_of_neg kept, ih]

theorem segments_removeBlanks (text : String) :
    segments (removeBlanks text) = tightSegments text := by
  have bar : (!isBlank '|') = true := by rw [Text.isBlank_bar]; rfl
  rw [segments, Text.toList_removeBlanks, @splitOn_filter (fun c => !isBlank c) bar,
    tightSegments, segments, List.map_map, List.map_map]
  apply List.map_congr_left
  intro chars _
  simp only [Function.comp, removeBlanks, String.toList_ofList]

theorem key_eq (text : String) : key text = "|".intercalate (sorted (tightSegments text)) := by
  rw [key, members, segments_removeBlanks]

theorem tightSegments_ne_nil (text : String) : tightSegments text ≠ [] := by
  rw [tightSegments, segments, ne_eq, List.map_eq_nil_iff, List.map_eq_nil_iff]
  exact List.splitOn_ne_nil _ _

theorem free_of_mem_tightSegments {text segment : String} (found : segment ∈ tightSegments text) :
    Text.Free isBlank segment := by
  obtain ⟨stretch, -, rfl⟩ := List.mem_map.mp found
  exact Text.free_removeBlanks stretch

theorem bar_not_mem_of_mem_tightSegments {text segment : String}
    (found : segment ∈ tightSegments text) : '|' ∉ segment.toList := by
  rw [← segments_removeBlanks] at found
  obtain ⟨chars, piece, rfl⟩ := List.mem_map.mp found
  rw [String.toList_ofList]
  exact Text.not_mem_of_mem_splitOn piece

theorem segments_intercalate {pieces : List String} (some : pieces ≠ [])
    (plain : ∀ piece ∈ pieces, '|' ∉ piece.toList) :
    segments ("|".intercalate pieces) = pieces := by
  have bar : "|".toList = ['|'] := rfl
  have each : ∀ chars ∈ pieces.map String.toList, '|' ∉ chars := by
    intro chars found
    obtain ⟨piece, listed, rfl⟩ := List.mem_map.mp found
    exact plain piece listed
  rw [segments, String.toList_intercalate, bar, List.splitOn_intercalate '|' each
    (by rwa [ne_eq, List.map_eq_nil_iff]), List.map_map]
  simp only [Function.comp_def, String.ofList_toList, List.map_id']

theorem sorted_ordered (names : List String) : (sorted names).Pairwise (· ≤ ·) := by
  refine (List.pairwise_mergeSort ?_ ?_ names).imp of_decide_eq_true
  · intro a b c below above
    exact decide_eq_true (String.le_trans (of_decide_eq_true below) (of_decide_eq_true above))
  · intro a b
    rw [Bool.or_eq_true, decide_eq_true_iff, decide_eq_true_iff]
    exact String.le_total a b

theorem sorted_eq_sorted_iff {first second : List String} :
    sorted first = sorted second ↔ first.Perm second := by
  constructor
  · intro same
    exact (sorted_perm first).symm.trans (same ▸ sorted_perm second)
  · intro perm
    have sortedPerm := ((sorted_perm first).trans perm).trans (sorted_perm second).symm
    exact sortedPerm.eq_of_pairwise (fun _ _ _ _ => String.le_antisymm) (sorted_ordered first)
      (sorted_ordered second)

theorem segments_key (text : String) : segments (key text) = sorted (tightSegments text) := by
  have perm := sorted_perm (tightSegments text)
  rw [key_eq]
  apply segments_intercalate
  · intro none
    rw [none] at perm
    exact tightSegments_ne_nil text perm.nil_eq.symm
  · intro piece found
    exact bar_not_mem_of_mem_tightSegments (perm.mem_iff.mp found)

/-- A key says which members are listed, and how often. -/
theorem key_eq_key_iff (first second : String) : key first = key second ↔
    SameMembers first second := by
  rw [SameMembers, ← sorted_eq_sorted_iff]
  constructor
  · intro same
    rw [← segments_key, same, segments_key]
  · intro same
    rw [key_eq, same, key_eq]

/-- A key depends on what is visible only. -/
theorem key_congr {first second : String} (tight : removeBlanks first = removeBlanks second) :
    key first = key second := by
  rw [key, tight, key]

theorem key_empty : key "" = "" := by
  have listed : segments (removeBlanks "") = [""] := rfl
  rw [key, members, listed, sorted, List.mergeSort_singleton, String.intercalate_singleton]

/-- Text without a visible character has the key of no text, and other text has another. -/
theorem key_eq_empty_iff (text : String) : key text = "" ↔ ¬Text.Visible text := by
  rw [← Text.removeBlanks_eq_empty_iff]
  constructor
  · intro none
    have single : sorted (tightSegments text) = [""] := by
      rw [← segments_key, none]
      rfl
    have listed : segments (removeBlanks text) = [""] := by
      rw [segments_removeBlanks, ← List.perm_singleton, ← single]
      exact (sorted_perm _).symm
    have pieces : (removeBlanks text).toList.splitOn '|' = [[]] := by
      rw [segments, List.map_eq_singleton_iff] at listed
      obtain ⟨piece, split, empty⟩ := listed
      rw [split, String.ofList_eq_empty_iff.mp empty]
    have joined : ['|'].intercalate ((removeBlanks text).toList.splitOn '|') =
        (removeBlanks text).toList := List.intercalate_splitOn '|'
    rw [← String.toList_eq_nil_iff, ← joined, pieces]
    rfl
  · intro none
    have tight : removeBlanks text = removeBlanks "" := none
    rw [key_congr tight, key_empty]

theorem key_ne_empty {text : String} (visible : Text.Visible text) : key text ≠ "" :=
  fun none => (key_eq_empty_iff text).mp none visible

theorem key_key (text : String) : key (key text) = key text := by
  have tight : tightSegments (key text) = sorted (tightSegments text) := by
    rw [← segments_removeBlanks, Text.removeBlanks_of_free (key_free_blank text), segments_key]
  rw [key_eq_key_iff, SameMembers, tight]
  exact sorted_perm _

/-- A scan that holds nothing but white space puts a spaced bar in the place of a bar, so that what
is visible stays. -/
theorem filter_separateFrom_spaced {passed : Passed} {chars : List Char}
    (blank : ∀ c ∈ passed.held, isBlank c = true) :
    (separateFrom [' ', '|', ' '] passed chars).filter (fun c => !isBlank c) =
      chars.filter fun c => !isBlank c := by
  have spacedBar : [' ', '|', ' '].filter (fun c => !isBlank c) = ['|'] := by decide
  have held (blanks : List Char) (blank : ∀ c ∈ blanks, isBlank c = true) :
      blanks.filter (fun c => !isBlank c) = [] := by
    rw [List.filter_eq_nil_iff]
    intro c member
    simp only [blank c member, Bool.not_true, Bool.false_eq_true, not_false_eq_true]
  have bar (rest : List Char) : ('|' :: rest).filter (fun c => !isBlank c) =
      '|' :: rest.filter fun c => !isBlank c := List.filter_cons_of_pos (by decide)
  have none : ∀ c ∈ Passed.bar.held, isBlank c = true :=
    fun _ member => absurd member List.not_mem_nil
  have empty : ∀ c ∈ (Passed.blanks []).held, isBlank c = true :=
    fun _ member => absurd member List.not_mem_nil
  fun_induction separateFrom [' ', '|', ' '] passed chars with
  | case1 => rfl
  | case2 blanks => exact held blanks blank
  | case3 rest ih => rw [List.filter_append, spacedBar, ih none, bar, List.singleton_append]
  | case4 c rest _ white ih =>
    rw [ih none, List.filter_cons_of_neg (by rw [white]; exact Bool.false_ne_true)]
  | case5 c rest _ visible ih =>
    rw [List.filter_cons, ih empty, List.filter_cons]
  | case6 blanks rest ih => rw [List.filter_append, spacedBar, ih none, bar, List.singleton_append]
  | case7 blanks c rest _ white ih =>
    rw [ih ?_, List.filter_cons_of_neg (by rw [white]; exact Bool.false_ne_true)]
    intro d member
    rcases List.mem_append.mp member with before | last
    · exact blank d before
    · rw [List.mem_singleton.mp last]
      exact white
  | case8 blanks c rest _ visible ih =>
    rw [List.filter_append, held blanks blank, List.nil_append, List.filter_cons, ih empty,
      List.filter_cons]

theorem removeBlanks_spaced (text : String) : removeBlanks (spaced text) = removeBlanks text := by
  have bar : " | ".toList = [' ', '|', ' '] := rfl
  rw [removeBlanks, spaced, separate, String.toList_ofList, bar, filter_separateFrom_spaced,
    removeBlanks]
  intro c member
  exact absurd member List.not_mem_nil

theorem key_spaced_key (text : String) : key (spaced (key text)) = key text := by
  rw [key_congr (removeBlanks_spaced (key text)), key_key]

end NodeSmith.Union
