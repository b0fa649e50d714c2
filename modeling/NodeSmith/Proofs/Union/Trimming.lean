import Mathlib.Data.List.DropRight
import NodeSmith.Proofs.Text.Parts
import NodeSmith.Proofs.Union.Characters

set_option autoImplicit false

namespace NodeSmith.Union

open Text (Free isBlank ne_bar_of_isBlank)

def Firm (c : Char) : Prop := isBlank c = false ∧ c ≠ '|'

instance (c : Char) : Decidable (Firm c) := inferInstanceAs (Decidable (_ ∧ _))

/-- Where a scan starts on what an earlier scan puts out: that holds nothing back. -/
def Passed.released : Passed → Passed
  | .bar => .bar
  | .blanks _ => .blanks []

/-- A rule applied to all pieces but the first. -/
def exceptFirst {α : Type} (rule : α → α) : List α → List α
  | [] => []
  | first :: rest => first :: rest.map rule

def exceptLast {α : Type} (rule : α → α) : List α → List α
  | [] => []
  | [last] => [last]
  | piece :: next :: rest => rule piece :: exceptLast rule (next :: rest)

/-- The segments of a text, the white space next to a bar trimmed off: at the start of each but the
first, and at the end of each but the last. -/
def trimmedSegments (text : String) : List String :=
  (exceptLast (List.rdropWhile isBlank)
    (exceptFirst (List.dropWhile isBlank) (text.toList.splitOn '|'))).map String.ofList

theorem dropWhile_append_cons {α : Type} {drop : α → Bool} {kept : α} (stays : drop kept = false)
    (front back : List α) :
    (front ++ kept :: back).dropWhile drop = front.dropWhile drop ++ kept :: back := by
  have last : (kept :: back).dropWhile drop = kept :: back :=
    List.dropWhile_cons_of_neg (by simp only [stays, Bool.false_eq_true, not_false_eq_true])
  rw [List.dropWhile_append, last]
  split
  · rename_i gone
    rw [List.isEmpty_iff.mp gone, List.nil_append]
  · rfl

theorem rdropWhile_append_cons {α : Type} {drop : α → Bool} {kept : α} (stays : drop kept = false)
    (front back : List α) :
    (front ++ kept :: back).rdropWhile drop = front ++ kept :: back.rdropWhile drop := by
  simp [List.rdropWhile, dropWhile_append_cons stays]

theorem not_mem_dropWhile {α : Type} {drop : α → Bool} {item : α} {items : List α}
    (absent : item ∉ items) : item ∉ items.dropWhile drop :=
  fun member => absent ((List.dropWhile_sublist drop).mem member)

theorem exceptFirst_of_fixed {α : Type} {rule : α → α} {pieces : List α}
    (fixed : ∀ piece ∈ pieces, rule piece = piece) : exceptFirst rule pieces = pieces := by
  cases pieces with
  | nil => rfl
  | cons first rest =>
    rw [exceptFirst, List.map_congr_left (List.forall_mem_cons.mp fixed).2, List.map_id']

theorem exceptLast_of_fixed {α : Type} {rule : α → α} {pieces : List α}
    (fixed : ∀ piece ∈ pieces, rule piece = piece) : exceptLast rule pieces = pieces := by
  induction pieces with
  | nil => rfl
  | cons first rest ih =>
    obtain ⟨here, later⟩ := List.forall_mem_cons.mp fixed
    cases rest with
    | nil => rfl
    | cons next rest => rw [exceptLast, here, ih later]

theorem intercalate_exceptLast_cons_cons {α : Type} (separator : List α)
    (rule : List α → List α) (piece next : List α) (rest : List (List α)) :
    separator.intercalate (exceptLast rule (piece :: next :: rest)) =
      rule piece ++ separator ++ separator.intercalate (exceptLast rule (next :: rest)) := by
  cases rest with
  | nil => simp only [exceptLast, List.intercalate_cons_cons]
  | cons third rest => simp only [exceptLast, List.intercalate_cons_cons]

theorem separateFrom_ne_nil {separator chars : List Char} (shown : separator ≠ [])
    (held : List Char) (some : held ++ chars ≠ []) :
    separateFrom separator (.blanks held) chars ≠ [] := by
  induction chars generalizing held with
  | nil =>
    rw [separateFrom]
    rwa [List.append_nil] at some
  | cons c rest ih =>
    rw [separateFrom]
    split
    · exact List.append_ne_nil_of_left_ne_nil shown _
    · split
      · apply ih
        rwa [List.append_assoc, List.singleton_append]
      · exact List.append_ne_nil_of_right_ne_nil _ (List.cons_ne_nil _ _)

section Scan

variable (separator : List Char)

/-- A scan gives back what it holds and what it meets before the next firm character, where that has
no bar. -/
theorem separateFrom_append_of_firm (held : List Char) {stretch back : List Char}
    (plain : '|' ∉ stretch) (firm : ∀ c ∈ back.head?, Firm c) :
    separateFrom separator (.blanks held) (stretch ++ back) =
      held ++ (stretch ++ separateFrom separator (.blanks []) back) := by
  induction stretch generalizing held with
  | nil =>
    cases back with
    | nil => simp [separateFrom]
    | cons c rest =>
      obtain ⟨visible, other⟩ := firm c rfl
      simp [separateFrom, visible, other]
  | cons c stretch ih =>
    rw [List.mem_cons, not_or] at plain
    have other : ¬c = '|' := Ne.symm plain.1
    simp only [List.cons_append, separateFrom, other, ↓reduceIte, ih _ plain.2, List.append_assoc,
      List.nil_append, ite_self]

/-- A scan that meets no bar gives everything back. -/
theorem separateFrom_of_no_bar {chars : List Char} (held : List Char) (plain : '|' ∉ chars) :
    separateFrom separator (.blanks held) chars = held ++ chars := by
  have ended : ∀ c ∈ ([] : List Char).head?, Firm c := nofun
  simpa only [List.append_nil, separateFrom] using
    separateFrom_append_of_firm separator held plain ended

theorem separateFrom_bar (chars : List Char) :
    separateFrom separator .bar chars =
      separateFrom separator (.blanks []) (chars.dropWhile isBlank) := by
  induction chars with
  | nil => rfl
  | cons c rest ih =>
    cases white : isBlank c with
    | true =>
      have other : c ≠ '|' := ne_bar_of_isBlank white
      simp only [separateFrom, other, white, ↓reduceIte, List.dropWhile_cons, ih]
    | false =>
      simp only [separateFrom, white, List.dropWhile_cons, Bool.false_eq_true, ↓reduceIte,
        List.nil_append]

/-- A scan passes on a segment, but for the white space before the bar that ends it. -/
theorem separateFrom_segment {held segment : List Char} (blank : ∀ c ∈ held, isBlank c = true)
    (plain : '|' ∉ segment) (rest : List Char) :
    separateFrom separator (.blanks held) (segment ++ '|' :: rest) =
      (held ++ segment).rdropWhile isBlank ++ separator ++ separateFrom separator .bar rest := by
  -- What is held is in front of the segment until a visible character lets it through.
  induction segment generalizing held with
  | nil =>
    have gone : (held ++ []).rdropWhile isBlank = [] := by simpa using blank
    rw [gone, List.nil_append, List.nil_append, separateFrom, if_pos rfl]
  | cons c segment ih =>
    rw [List.mem_cons, not_or] at plain
    have other : ¬c = '|' := Ne.symm plain.1
    rw [List.cons_append, separateFrom, if_neg other]
    cases white : isBlank c with
    | true =>
      have still : ∀ d ∈ held ++ [c], isBlank d = true := by
        simpa [or_imp, forall_and, white] using blank
      rw [if_pos rfl, ih still plain.2, List.append_assoc held, List.singleton_append]
    | false =>
      have none : ∀ d ∈ ([] : List Char), isBlank d = true := List.forall_mem_nil _
      rw [if_neg Bool.false_ne_true, ih none plain.2, rdropWhile_append_cons white]
      simp only [List.nil_append, List.append_assoc, List.cons_append]

/-- A scan that holds nothing passes on the first of several segments. -/
theorem separateFrom_intercalate_cons_cons {segment : List Char} (plain : '|' ∉ segment)
    (next : List Char) (rest : List (List Char)) :
    separateFrom separator (.blanks []) (['|'].intercalate (segment :: next :: rest)) =
      segment.rdropWhile isBlank ++ separator ++
        separateFrom separator .bar (['|'].intercalate (next :: rest)) := by
  rw [List.intercalate_cons_cons, List.append_assoc, List.singleton_append,
    separateFrom_segment separator (List.forall_mem_nil _) plain, List.nil_append]

/-- Segments behind a bar all lose the white space at their start. -/
theorem separateFrom_bar_intercalate {segments : List (List Char)} (some : segments ≠ [])
    (plain : ∀ segment ∈ segments, '|' ∉ segment) :
    separateFrom separator .bar (['|'].intercalate segments) =
      separator.intercalate
        (exceptLast (List.rdropWhile isBlank) (segments.map (List.dropWhile isBlank))) := by
  induction segments with
  | nil => exact absurd rfl some
  | cons segment rest ih =>
    obtain ⟨whole, later⟩ := List.forall_mem_cons.mp plain
    have trimmed : '|' ∉ segment.dropWhile isBlank := not_mem_dropWhile whole
    cases rest with
    | nil =>
      rw [List.intercalate_singleton, separateFrom_bar, separateFrom_of_no_bar separator [] trimmed]
      exact List.intercalate_singleton.symm
    | cons next rest =>
      have onward := ih (List.cons_ne_nil next rest) later
      have skipped : (['|'].intercalate (segment :: next :: rest)).dropWhile isBlank =
          ['|'].intercalate (segment.dropWhile isBlank :: next :: rest) := by
        rw [List.intercalate_cons_cons, List.intercalate_cons_cons, List.append_assoc,
          List.append_assoc, List.singleton_append, dropWhile_append_cons Text.isBlank_bar]
      rw [separateFrom_bar, skipped, separateFrom_intercalate_cons_cons separator trimmed, onward]
      exact (intercalate_exceptLast_cons_cons separator _ _ _ _).symm

/-- The first of all segments keeps the white space at its start. -/
theorem separateFrom_intercalate {segments : List (List Char)} (some : segments ≠ [])
    (plain : ∀ segment ∈ segments, '|' ∉ segment) :
    separateFrom separator (.blanks []) (['|'].intercalate segments) =
      separator.intercalate
        (exceptLast (List.rdropWhile isBlank)
          (exceptFirst (List.dropWhile isBlank) segments)) := by
  obtain ⟨first, rest, rfl⟩ := List.exists_cons_of_ne_nil some
  obtain ⟨whole, later⟩ := List.forall_mem_cons.mp plain
  cases rest with
  | nil =>
    rw [List.intercalate_singleton, separateFrom_of_no_bar separator [] whole]
    exact List.intercalate_singleton.symm
  | cons next rest =>
    rw [separateFrom_intercalate_cons_cons separator whole,
      separateFrom_bar_intercalate separator (List.cons_ne_nil next rest) later, exceptFirst,
      List.map_cons, intercalate_exceptLast_cons_cons]

/-- A scan cuts behind a firm character: what follows is scanned as if it stood alone. -/
theorem separateFrom_append_firm {c : Char} (firm : Firm c) (front back : List Char)
    (passed : Passed) :
    separateFrom separator passed (front ++ c :: back) =
      separateFrom separator passed (front ++ [c]) ++ separateFrom separator (.blanks []) back := by
  obtain ⟨visible, other⟩ := firm
  induction front generalizing passed with
  | nil => cases passed <;> simp [separateFrom, other, visible]
  | cons d front ih =>
    rw [List.cons_append, List.cons_append]
    by_cases cut : d = '|'
    · cases passed <;> simp only [separateFrom, cut, ↓reduceIte, ih, List.append_assoc]
    · cases white : isBlank d <;> cases passed <;>
        simp only [separateFrom, cut, white, ↓reduceIte, ih, List.append_assoc, List.cons_append,
          Bool.false_eq_true]

/-- To a scan a spaced bar is what the bar was. -/
theorem separateFrom_separateFrom {passed : Passed} {chars : List Char}
    (blank : ∀ c ∈ passed.held, isBlank c = true) :
    separateFrom separator passed.released (separateFrom [' ', '|', ' '] passed chars) =
      separateFrom separator passed chars := by
  have space : isBlank ' ' = true := by decide
  have other : ' ' ≠ '|' := by decide
  have none : ∀ c ∈ Passed.bar.held, isBlank c = true := List.forall_mem_nil _
  have empty : ∀ c ∈ (Passed.blanks []).held, isBlank c = true := List.forall_mem_nil _
  -- The induction follows the first scan. What that holds it has not put out yet, so that the
  -- second scan is behind it by just this white space.
  fun_induction separateFrom [' ', '|', ' '] passed chars with
  | case1 => rfl
  | case2 held =>
    have plain : '|' ∉ held := fun member => ne_bar_of_isBlank (blank _ member) rfl
    exact separateFrom_of_no_bar separator [] plain
  | case3 rest ih =>
    have later : separateFrom separator .bar (separateFrom [' ', '|', ' '] .bar rest) =
        separateFrom separator .bar rest := ih none
    simp only [Passed.released, List.cons_append, List.nil_append, separateFrom, other, space,
      ↓reduceIte, later]
  | case4 c rest bar white ih =>
    have later : separateFrom separator .bar (separateFrom [' ', '|', ' '] .bar rest) =
        separateFrom separator .bar rest := ih none
    simp only [Passed.released, separateFrom, bar, white, ↓reduceIte, later]
  | case5 c rest bar visible ih =>
    have later : separateFrom separator (.blanks [])
        (separateFrom [' ', '|', ' '] (.blanks []) rest) =
          separateFrom separator (.blanks []) rest := ih empty
    simp only [Passed.released, separateFrom, bar, visible, Bool.false_eq_true, ↓reduceIte, later]
  | case6 held rest ih =>
    have later : separateFrom separator .bar (separateFrom [' ', '|', ' '] .bar rest) =
        separateFrom separator .bar rest := ih none
    simp only [Passed.released, List.cons_append, List.nil_append, separateFrom, other, space,
      ↓reduceIte, later]
  | case7 held c rest bar white ih =>
    have still : ∀ d ∈ (Passed.blanks (held ++ [c])).held, isBlank d = true := by
      simpa [Passed.held, or_imp, forall_and, white] using blank
    simp only [separateFrom, bar, white, ↓reduceIte]
    exact ih still
  | case8 held c rest bar visible ih =>
    have plain : '|' ∉ held := fun member => ne_bar_of_isBlank (blank _ member) rfl
    have firm : ∀ d ∈ (c :: separateFrom [' ', '|', ' '] (.blanks []) rest).head?, Firm d := by
      rintro d ⟨⟩
      exact ⟨eq_false_of_ne_true visible, bar⟩
    have later : separateFrom separator (.blanks [])
        (separateFrom [' ', '|', ' '] (.blanks []) rest) =
          separateFrom separator (.blanks []) rest := ih empty
    rw [Passed.released, separateFrom_append_of_firm separator [] plain firm]
    simp only [separateFrom, bar, visible, Bool.false_eq_true, ↓reduceIte, List.nil_append, later]

end Scan

/-- A separated text joins its trimmed segments. -/
theorem separate_eq_intercalate (separator text : String) :
    separate separator text = separator.intercalate (trimmedSegments text) := by
  have joined : ['|'].intercalate (text.toList.splitOn '|') = text.toList :=
    List.intercalate_splitOn '|'
  have scanned := separateFrom_intercalate separator.toList (List.splitOn_ne_nil '|' text.toList)
    fun _ found => Text.not_mem_of_mem_splitOn found
  rw [joined] at scanned
  rw [← String.toList_inj, String.toList_intercalate, separate, String.toList_ofList, scanned,
    trimmedSegments, List.map_map]
  simp only [Function.comp_def, String.toList_ofList, List.map_id']

theorem trimmedSegments_of_tight {text : String} (tight : Free isBlank text) :
    trimmedSegments text = segments text := by
  have visible : ∀ piece ∈ text.toList.splitOn '|', ∀ c ∈ piece, ¬isBlank c = true := by
    intro piece found c member
    have inside : c ∈ (String.ofList piece).toList := by rwa [String.toList_ofList]
    rw [tight c (mem_of_mem_segments (List.mem_map_of_mem found) inside)]
    exact Bool.false_ne_true
  have start : ∀ piece ∈ text.toList.splitOn '|', piece.dropWhile isBlank = piece := by
    intro piece found
    exact List.dropWhile_eq_self_iff.mpr fun some => visible piece found _ (List.get_mem _ _)
  have finish : ∀ piece ∈ text.toList.splitOn '|', piece.rdropWhile isBlank = piece := by
    intro piece found
    exact List.rdropWhile_eq_self_iff.mpr fun some => visible piece found _ (List.getLast_mem some)
  rw [trimmedSegments, exceptFirst_of_fixed start, exceptLast_of_fixed finish, segments]

/-- Text without white space is taken apart at its bars and put together with the separator. -/
theorem separate_of_tight (separator : String) {text : String} (tight : Free isBlank text) :
    separate separator text = separator.intercalate (segments text) := by
  rw [separate_eq_intercalate, trimmedSegments_of_tight tight]

theorem separate_of_no_bar (separator : String) {text : String} (plain : '|' ∉ text.toList) :
    separate separator text = text := by
  rw [separate, separateFrom_of_no_bar separator.toList [] plain, List.nil_append,
    String.ofList_toList]

theorem separate_ne_empty {separator text : String} (shown : separator ≠ "") (some : text ≠ "") :
    separate separator text ≠ "" := by
  rw [separate, ne_eq, String.ofList_eq_empty_iff]
  apply separateFrom_ne_nil
  · rwa [ne_eq, String.toList_eq_nil_iff]
  · rwa [List.nil_append, ne_eq, String.toList_eq_nil_iff]

theorem identifier_ne_empty {text : String} (some : text ≠ "") : identifier text ≠ "" :=
  separate_ne_empty (by decide) some

theorem identifier_identifier (text : String) : identifier (identifier text) = identifier text :=
  separate_of_no_bar "Or" (bar_not_mem_identifier text)

theorem identifierOf_of_ne_empty {text : String} (given : text ≠ "") :
    identifierOf (.text text) = .ok (some (identifier text)) := by
  rw [identifierOf, ofValue_text, if_neg given]

theorem spacedOf_of_ne_empty {text : String} (given : text ≠ "") :
    spacedOf (.text text) = .ok (some (spaced text)) := by
  rw [spacedOf, ofValue_text, if_neg given]

/-- What stands between firm characters, or between one and an end of the text, stays as it is, its
white space included. -/
theorem separate_append_append (separator : String) {front stretch back : String}
    (plain : '|' ∉ stretch.toList) (before : ∀ c ∈ front.toList.getLast?, Firm c)
    (behind : ∀ c ∈ back.toList.head?, Firm c) :
    separate separator (front ++ stretch ++ back) =
      separate separator front ++ stretch ++ separate separator back := by
  have kept := separateFrom_append_of_firm separator.toList [] plain behind
  rw [← String.toList_inj]
  simp only [separate, String.toList_ofList, String.toList_append, List.append_assoc]
  cases ends : front.toList.getLast? with
  | none =>
    rw [List.getLast?_eq_none_iff] at ends
    simpa only [ends, separateFrom, List.nil_append] using kept
  | some c =>
    obtain ⟨start, ends⟩ := List.getLast?_eq_some_iff.mp ends
    rw [ends, List.append_assoc, List.singleton_append,
      separateFrom_append_firm separator.toList (before c (by simp [ends])), kept, List.nil_append]

theorem separate_spaced (separator text : String) :
    separate separator (spaced text) = separate separator text := by
  have bar : " | ".toList = [' ', '|', ' '] := rfl
  have empty : ∀ c ∈ (Passed.blanks []).held, isBlank c = true := List.forall_mem_nil _
  simp only [separate, spaced, String.toList_ofList, bar]
  exact congrArg String.ofList (separateFrom_separateFrom separator.toList empty)

theorem spaced_spaced (text : String) : spaced (spaced text) = spaced text :=
  separate_spaced " | " text

/-- The identifier and the spaced form of a text join its segments, trimmed where they meet a bar.
So a text without bars stays as it is, and of any other all that is not white space next to a bar
stays in its place; an identifier is never empty and has no bar; and both are their own. -/
theorem forms_join_trimmed (text : String) (given : text ≠ "") :
    let name := "Or".intercalate (trimmedSegments text)
    let shown := " | ".intercalate (trimmedSegments text)
    identifierOf (.text text) = .ok (some name) ∧
      spacedOf (.text text) = .ok (some shown) ∧
      ('|' ∉ text.toList → name = text ∧ shown = text) ∧
      (∀ front stretch back : String, text = front ++ stretch ++ back → '|' ∉ stretch.toList →
        (∀ c ∈ front.toList.getLast?, Firm c) → (∀ c ∈ back.toList.head?, Firm c) →
          name = identifier front ++ stretch ++ identifier back ∧
            shown = spaced front ++ stretch ++ spaced back) ∧
      name ≠ "" ∧ '|' ∉ name.toList ∧
      identifierOf (.text name) = .ok (some name) ∧
      spacedOf (.text shown) = .ok (some shown) := by
  intro name shown
  have named : identifier text = name := separate_eq_intercalate "Or" text
  have spacedText : spaced text = shown := separate_eq_intercalate " | " text
  have nameGiven : name ≠ "" := named ▸ identifier_ne_empty given
  have shownGiven : shown ≠ "" := spacedText ▸ separate_ne_empty (by decide) given
  refine ⟨?_, ?_, ?_, ?_, nameGiven, ?_, ?_, ?_⟩
  · rw [identifierOf_of_ne_empty given, named]
  · rw [spacedOf_of_ne_empty given, spacedText]
  · intro plain
    rw [← named, ← spacedText]
    exact ⟨separate_of_no_bar "Or" plain, separate_of_no_bar " | " plain⟩
  · rintro front stretch back rfl plain before behind
    rw [← named, ← spacedText]
    exact ⟨separate_append_append "Or" plain before behind,
      separate_append_append " | " plain before behind⟩
  · rw [← named]
    exact bar_not_mem_identifier text
  · rw [identifierOf_of_ne_empty nameGiven, ← named, identifier_identifier]
  · rw [spacedOf_of_ne_empty shownGiven, ← spacedText, spaced_spaced]

theorem sample_forms_join_trimmed :
    identifierOf (.text " A B\u2003|\t| C D ") = .ok (some " A BOrOrC D ") ∧
      spacedOf (.text " A B\u2003|\t| C D ") = .ok (some " A B |  | C D ") ∧
      identifierOf (.text " A B ") = .ok (some " A B ") ∧
      identifierOf (.text "A|B \t C |D") =
        .ok (some (identifier "A|B" ++ " \t " ++ identifier "C |D")) := by
  have trimmed : trimmedSegments " A B\u2003|\t| C D " = [" A B", "", "C D "] := by decide
  obtain ⟨named, shown, -⟩ := forms_join_trimmed " A B\u2003|\t| C D " (by decide)
  obtain ⟨whole, -, plain, -⟩ := forms_join_trimmed " A B " (by decide)
  obtain ⟨cut, -, -, stretches, -⟩ := forms_join_trimmed "A|B \t C |D" (by decide)
  have before : ∀ c ∈ "A|B".toList.getLast?, Firm c := by
    rintro c ⟨⟩
    decide
  have behind : ∀ c ∈ "C |D".toList.head?, Firm c := by
    rintro c ⟨⟩
    decide
  have kept := stretches "A|B" " \t " "C |D" (by decide) (by decide) before behind
  rw [trimmed] at named shown
  refine ⟨named, shown, ?_, ?_⟩
  · rw [whole, (plain (by decide)).1]
  · rw [cut, kept.1]

end NodeSmith.Union
