import NodeSmith.Proofs.Text.Free
import NodeSmith.Text.Break

set_option autoImplicit false

namespace NodeSmith.Text

abbrev Unbroken (text : String) : Prop := Free isBreak text

theorem stretches_feed (rest : List Char) : stretches ('\n' :: rest) = [] :: stretches rest := by
  rw [stretches]
  · rfl
  · intro after impossible
    cases impossible

theorem stretches_cons_of_not_break {c : Char} {rest : List Char} (inside : isBreak c = false) :
    stretches (c :: rest) = (stretches rest).modifyHead (c :: ·) := by
  rw [stretches]
  · simp only [inside, Bool.false_eq_true, ↓reduceIte]
  · intro after impossible
    cases impossible
    exact absurd inside (by decide)

theorem stretches_cons_of_break {c : Char} {rest : List Char} (broken : isBreak c = true)
    (whole : ¬(c = '\r' ∧ rest.head? = some '\n')) :
    stretches (c :: rest) = [] :: stretches rest := by
  rw [stretches]
  · simp only [broken, ↓reduceIte]
  · rintro after rfl rfl
    exact whole ⟨rfl, rfl⟩

theorem stretches_of_not_break {chars : List Char} (inside : ∀ c ∈ chars, isBreak c = false) :
    stretches chars = [chars] := by
  induction chars with
  | nil => rfl
  | cons c rest ih =>
    rw [stretches_cons_of_not_break (inside c List.mem_cons_self),
      ih fun other member => inside other (List.mem_cons_of_mem _ member)]
    rfl

/-- The first line feed ends the first stretch. -/
theorem stretches_append_feed {front rest : List Char} (inside : ∀ c ∈ front, isBreak c = false) :
    stretches (front ++ '\n' :: rest) = front :: stretches rest := by
  induction front with
  | nil => exact stretches_feed rest
  | cons c front ih =>
    rw [List.cons_append, stretches_cons_of_not_break (inside c List.mem_cons_self),
      ih fun other member => inside other (List.mem_cons_of_mem _ member)]
    rfl

/-- No break has one of its halves at the end of the front and the other at the start of the
back. -/
def Untorn (front back : List Char) : Prop :=
  ¬(front.getLast? = some '\r' ∧ back.head? = some '\n')

theorem Untorn.of_cons {c : Char} {rest back : List Char} (untorn : Untorn (c :: rest) back) :
    Untorn rest back := by
  rintro ⟨ends, feed⟩
  apply untorn
  rw [List.getLast?_cons, ends]
  exact ⟨rfl, feed⟩

/-- Where two texts meet, the last stretch of the one and the first stretch of the other become
one. -/
theorem exists_stretches_append {front back : List Char} (untorn : Untorn front back) :
    ∃ before last first after, stretches front = before ++ [last] ∧
      stretches back = first :: after ∧
      stretches (front ++ back) = before ++ (last ++ first) :: after := by
  fun_induction stretches front with
  | case1 =>
    obtain ⟨first, after, split⟩ := List.exists_cons_of_ne_nil (stretches_ne_nil back)
    exact ⟨[], [], first, after, rfl, split, split⟩
  | case2 rest ih =>
    obtain ⟨before, last, first, after, here, there, both⟩ := ih untorn.of_cons.of_cons
    refine ⟨[] :: before, last, first, after, ?_, there, ?_⟩
    · rw [here, List.cons_append]
    · rw [List.cons_append, List.cons_append, stretches, both, List.cons_append]
  | case3 c rest single broken ih =>
    have whole : ¬(c = '\r' ∧ (rest ++ back).head? = some '\n') := by
      rintro ⟨rfl, feed⟩
      cases rest with
      | nil => exact untorn ⟨rfl, feed⟩
      | cons d rest =>
        cases feed
        exact single rest rfl rfl
    obtain ⟨before, last, first, after, here, there, both⟩ := ih untorn.of_cons
    refine ⟨[] :: before, last, first, after, ?_, there, ?_⟩
    · rw [here, List.cons_append]
    · rw [List.cons_append, stretches_cons_of_break broken whole, both, List.cons_append]
  | case4 c rest single inside ih =>
    obtain ⟨before, last, first, after, here, there, both⟩ := ih untorn.of_cons
    have within : isBreak c = false := eq_false_of_ne_true inside
    rw [List.cons_append, stretches_cons_of_not_break within, here, both]
    cases before with
    | nil => exact ⟨[], c :: last, first, after, rfl, there, rfl⟩
    | cons stretch before => exact ⟨(c :: stretch) :: before, last, first, after, rfl, there, rfl⟩

theorem lines_ne_nil (text : String) : lines text ≠ [] := by
  rw [lines, ne_eq, List.map_eq_nil_iff]
  exact stretches_ne_nil text.toList

theorem lines_of_unbroken {text : String} (unbroken : Unbroken text) : lines text = [text] := by
  rw [lines, stretches_of_not_break unbroken, List.map_singleton, String.ofList_toList]

theorem exists_lines_append {front back : String} (untorn : Untorn front.toList back.toList) :
    ∃ before last first after, lines front = before ++ [last] ∧ lines back = first :: after ∧
      lines (front ++ back) = before ++ (last ++ first) :: after := by
  obtain ⟨before, last, first, after, here, there, both⟩ := exists_stretches_append untorn
  refine ⟨before.map String.ofList, String.ofList last, String.ofList first,
    after.map String.ofList, ?_, ?_, ?_⟩
  · rw [lines, here, List.map_append, List.map_singleton]
  · rw [lines, there, List.map_cons]
  · rw [lines, String.toList_append, both, List.map_append, List.map_cons, String.ofList_append]

/-- Only a text that begins with a break has an empty line first. -/
theorem exists_lines_eq_cons {text : String} {c : Char} {rest : List Char}
    (begins : text.toList = c :: rest) (inside : isBreak c = false) :
    ∃ first more, lines text = first :: more ∧ first ≠ "" := by
  obtain ⟨first, more, split⟩ := List.exists_cons_of_ne_nil (stretches_ne_nil rest)
  refine ⟨String.ofList (c :: first), more.map String.ofList, ?_, ?_⟩
  · rw [lines, begins, stretches_cons_of_not_break inside, split, List.modifyHead_cons,
      List.map_cons]
  · intro empty
    have shown := congrArg String.toList empty
    rw [String.toList_ofList] at shown
    cases shown

theorem isEmpty_of_lines {text first : String} {rest : List String}
    (split : lines text = first :: rest) (visible : first ≠ "") : text.isEmpty = false := by
  rw [String.isEmpty_eq_false_iff]
  rintro rfl
  have none : lines "" = [""] := rfl
  rw [none] at split
  exact visible (List.cons.inj split).1.symm

/-- Lines that are joined come apart again. -/
theorem lines_intercalate {texts : List String} (unbroken : ∀ text ∈ texts, Unbroken text)
    (some : texts ≠ []) : lines ("\n".intercalate texts) = texts := by
  induction texts with
  | nil => exact absurd rfl some
  | cons first rest ih =>
    have firstUnbroken := unbroken first List.mem_cons_self
    cases rest with
    | nil => rw [String.intercalate_singleton, lines_of_unbroken firstUnbroken]
    | cons second rest =>
      have shorter := ih (fun text member => unbroken text (List.mem_cons_of_mem _ member))
        (List.cons_ne_nil _ _)
      have feed : "\n".toList = ['\n'] := rfl
      rw [String.intercalate_cons_cons, lines, String.toList_append, String.toList_append, feed,
        List.append_assoc, List.singleton_append, stretches_append_feed firstUnbroken,
        List.map_cons, String.ofList_toList, ← lines, shorter]

theorem not_break_of_mem_stretches {chars stretch : List Char} (found : stretch ∈ stretches chars) :
    ∀ c ∈ stretch, isBreak c = false := by
  fun_induction stretches chars generalizing stretch with
  | case1 =>
    rw [List.mem_singleton.mp found]
    exact fun _ member => absurd member List.not_mem_nil
  | case2 rest ih =>
    rcases List.mem_cons.mp found with rfl | later
    · exact fun _ member => absurd member List.not_mem_nil
    · exact ih later
  | case3 c rest _ broken ih =>
    rcases List.mem_cons.mp found with rfl | later
    · exact fun _ member => absurd member List.not_mem_nil
    · exact ih later
  | case4 c rest _ inside ih =>
    obtain ⟨first, more, split⟩ := List.exists_cons_of_ne_nil (stretches_ne_nil rest)
    rw [split] at ih found
    rw [List.modifyHead_cons] at found
    rcases List.mem_cons.mp found with rfl | later
    · intro d member
      rcases List.mem_cons.mp member with rfl | further
      · exact eq_false_of_ne_true inside
      · exact ih List.mem_cons_self d further
    · exact ih (List.mem_cons_of_mem _ later)

theorem unbroken_of_mem_lines {text line : String} (found : line ∈ lines text) : Unbroken line := by
  obtain ⟨stretch, listed, rfl⟩ := List.mem_map.mp found
  rw [Unbroken, Free, String.toList_ofList]
  exact not_break_of_mem_stretches listed

theorem flatten_stretches (chars : List Char) :
    (stretches chars).flatten = chars.filter fun c => !isBreak c := by
  fun_induction stretches chars with
  | case1 => rfl
  | case2 rest ih =>
    have feed : isBreak '\n' = true := rfl
    have back : isBreak '\r' = true := rfl
    simp only [List.flatten_cons, List.nil_append, ih, List.filter_cons, back, feed, Bool.not_true,
      Bool.false_eq_true, ↓reduceIte]
  | case3 c rest _ broken ih =>
    simp only [List.flatten_cons, List.nil_append, ih, List.filter_cons, broken, Bool.not_true,
      Bool.false_eq_true, ↓reduceIte]
  | case4 c rest _ inside ih =>
    obtain ⟨first, more, found⟩ := List.exists_cons_of_ne_nil (stretches_ne_nil rest)
    rw [found] at ih ⊢
    simp only [List.modifyHead_cons, List.flatten_cons, List.cons_append] at ih ⊢
    rw [ih, List.filter_cons_of_pos (by rw [eq_false_of_ne_true inside]; rfl)]

theorem flatMap_lines (text : String) :
    (lines text).flatMap String.toList = text.toList.filter fun c => !isBreak c := by
  rw [lines, List.flatMap_map, ← flatten_stretches, ← List.flatMap_id']
  simp only [String.toList_ofList]

/-- A text that ends in a visible line has no break to drop. -/
theorem dropTrailingBreaks_append {front last : String} (unbroken : Unbroken last)
    (visible : last ≠ "") : dropTrailingBreaks (front ++ last) = front ++ last := by
  have some : last.toList.reverse ≠ [] := by
    rw [ne_eq, List.reverse_eq_nil_iff, String.toList_eq_nil_iff]
    exact visible
  obtain ⟨c, before, ends⟩ := List.exists_cons_of_ne_nil some
  have inside : isBreak c = false := by
    apply unbroken c
    rw [← List.mem_reverse, ends]
    exact List.mem_cons_self
  rw [dropTrailingBreaks, String.toList_append, List.reverse_append, ends, List.cons_append,
    List.dropWhile_cons_of_neg (by rw [inside]; exact Bool.false_ne_true), ← List.cons_append,
    ← ends, ← List.reverse_append, List.reverse_reverse, ← String.toList_append,
    String.ofList_toList]

theorem exists_intercalate_eq_append (separator : String) {texts : List String}
    (some : texts ≠ []) :
    ∃ front last, last ∈ texts ∧ separator.intercalate texts = front ++ last := by
  induction texts with
  | nil => exact absurd rfl some
  | cons first rest ih =>
    cases rest with
    | nil =>
      refine ⟨"", first, List.mem_cons_self, ?_⟩
      rw [String.intercalate_singleton, String.empty_append]
    | cons second rest =>
      obtain ⟨front, last, found, ends⟩ := ih (List.cons_ne_nil _ _)
      refine ⟨first ++ separator ++ front, last, List.mem_cons_of_mem _ found, ?_⟩
      rw [String.intercalate_cons_cons, ends, ← String.append_assoc]

theorem dropTrailingBreaks_intercalate {texts : List String}
    (unbroken : ∀ text ∈ texts, Unbroken text) (visible : ∀ text ∈ texts, text ≠ "") :
    dropTrailingBreaks ("\n".intercalate texts) = "\n".intercalate texts := by
  by_cases none : texts = []
  · rw [none]
    rfl
  · obtain ⟨front, last, found, ends⟩ := exists_intercalate_eq_append "\n" none
    rw [ends]
    exact dropTrailingBreaks_append (unbroken last found) (visible last found)

end NodeSmith.Text
