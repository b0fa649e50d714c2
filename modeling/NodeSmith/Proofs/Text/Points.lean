import Mathlib.Data.String.Basic
import NodeSmith.Proofs.Outcome
import NodeSmith.Text.Point

set_option autoImplicit false

namespace NodeSmith.Text

variable {c : Char} {front back chars : List Char} {point : Nat} {text : String}

/-- A character that stands for itself in a text, whatever stands before it. -/
@[mk_iff]
structure Plain (c : Char) : Prop where
  ne_mark : c ≠ mark
  told : told? c = none

instance (c : Char) : Decidable (Plain c) := decidable_of_iff' _ (plain_iff c)

@[simp] theorem points_nil : points [] = [] := rfl

theorem points_cons (visible : c ≠ mark) (rest : List Char) :
    points (c :: rest) = c.toNat :: points rest := by
  rw [points]
  rintro next more rfl
  exact absurd rfl visible

theorem points_mark (told : told? c = some point) (rest : List Char) :
    points (mark :: c :: rest) = point :: points rest := by
  rw [mark, points, told]

theorem points_mark_of_none (told : told? c = none) (rest : List Char) :
    points (mark :: c :: rest) = mark.toNat :: points (c :: rest) := by
  rw [mark, points, told]
  rfl

/-- A character that stands for itself parts the code points before it from those after it. -/
theorem points_append_cons (plain : Plain c) (front back : List Char) :
    points (front ++ c :: back) = points front ++ c.toNat :: points back := by
  fun_induction points front with
  | case1 => exact points_cons plain.ne_mark back
  | case2 next rest point told ih =>
    exact (points_mark told _).trans (congrArg (point :: ·) ih)
  | case3 next rest told ih =>
    exact (points_mark_of_none told _).trans (congrArg (mark.toNat :: ·) ih)
  | case4 other rest alone ih =>
    by_cases marks : other = mark
    · subst marks
      cases rest with
      | nil =>
        exact (points_mark_of_none plain.told back).trans
          (congrArg (mark.toNat :: ·) (points_cons plain.ne_mark back))
      | cons next more => exact absurd rfl (alone next more rfl)
    · rw [List.cons_append, points_cons marks, ih, List.cons_append]

theorem points_append_of_head (plain : ∀ c ∈ back.head?, Plain c) (front : List Char) :
    points (front ++ back) = points front ++ points back := by
  cases back with
  | nil => rw [List.append_nil, points_nil, List.append_nil]
  | cons c rest =>
    have first : Plain c := plain c rfl
    rw [points_append_cons first, points_cons first.ne_mark]

theorem points_append_of_getLast (plain : ∀ c ∈ front.getLast?, Plain c) (back : List Char) :
    points (front ++ back) = points front ++ points back := by
  rcases List.eq_nil_or_concat front with rfl | ⟨before, c, rfl⟩
  · rfl
  · rw [List.concat_eq_append] at plain ⊢
    have last : Plain c := plain c List.getLast?_concat
    rw [List.append_assoc, List.singleton_append, points_append_cons last,
      points_append_cons last, points_nil, List.append_assoc, List.singleton_append]

theorem points_eq_map (absent : mark ∉ chars) : points chars = chars.map Char.toNat := by
  induction chars with
  | nil => rfl
  | cons c rest ih =>
    rw [List.mem_cons, not_or] at absent
    rw [points_cons (Ne.symm absent.1), ih absent.2, List.map_cons]

def IsPoint (point : Nat) : Prop := point < 0x110000

instance (point : Nat) : Decidable (IsPoint point) := Nat.decLt point 0x110000

theorem toNat_ofNat_of_not_half (valid : IsPoint point) (whole : isHalf point = false) :
    (Char.ofNat point).toNat = point := by
  have scalar : point.isValidChar := by
    simp only [isHalf, Bool.and_eq_false_iff, decide_eq_false_iff_not] at whole
    simp only [IsPoint] at valid
    simp only [Nat.isValidChar]
    omega
  rw [Char.ofNat, dif_pos scalar]
  rfl

theorem isPoint_toNat (c : Char) : IsPoint c.toNat := by
  have valid : c.toNat.isValidChar := c.valid
  simp only [Nat.isValidChar] at valid
  simp only [IsPoint]
  omega

theorem isPoint_of_mem_points (found : point ∈ points chars) : IsPoint point := by
  fun_induction points chars with
  | case1 => exact absurd found List.not_mem_nil
  | case2 next rest told same ih =>
    rcases List.mem_cons.mp found with rfl | later
    · have bound := isPoint_toNat next
      simp only [told?, Option.ite_none_right_eq_some, Option.some.injEq] at same
      simp only [IsPoint] at bound ⊢
      omega
    · exact ih later
  | case3 next rest same ih =>
    rcases List.mem_cons.mp found with rfl | later
    · exact isPoint_toNat mark
    · exact ih later
  | case4 c rest visible ih =>
    rcases List.mem_cons.mp found with rfl | later
    · exact isPoint_toNat c
    · exact ih later

/-- The character that tells a half, or the mark. -/
theorem toNat_teller (low : 0xD7FF ≤ point) (high : point < 0xE000) :
    (Char.ofNat (point + 0x801)).toNat = point + 0x801 := by
  apply toNat_ofNat_of_not_half
  · simp only [IsPoint]
    omega
  · simp only [isHalf, Bool.and_eq_false_iff, decide_eq_false_iff_not, Nat.not_lt]
    omega

theorem told?_teller (low : 0xD7FF ≤ point) (high : point < 0xE000) :
    told? (Char.ofNat (point + 0x801)) = some point := by
  rw [told?, toNat_teller low high, if_pos (by omega), Nat.add_sub_cancel]

/-- A text holds the code points that it was made of. -/
theorem points_ofPoints {held : List Nat} (valid : ∀ point ∈ held, IsPoint point) :
    points (ofPoints held).toList = held := by
  rw [ofPoints, String.toList_ofList]
  induction held with
  | nil => rfl
  | cons point rest ih =>
    obtain ⟨first, others⟩ := List.forall_mem_cons.mp valid
    rw [List.flatMap_cons, ofPoint]
    split
    case isTrue told =>
      rw [List.cons_append, List.singleton_append, points_mark (told?_teller told.1 told.2),
        ih others]
    case isFalse plain =>
      have whole : isHalf point = false := by
        simp only [isHalf, Bool.and_eq_false_iff, decide_eq_false_iff_not]
        omega
      have same := toNat_ofNat_of_not_half first whole
      have visible : Char.ofNat point ≠ mark := by
        intro marks
        have number : mark.toNat = 0xD7FF := rfl
        rw [marks, number] at same
        omega
      rw [List.singleton_append, points_cons visible, same, ih others]

theorem char_lt_iff_toNat {c d : Char} : c < d ↔ c.toNat < d.toNat := by
  rw [Char.lt_def, UInt32.lt_iff_toNat_lt]
  rfl

/-- Of two code points the lower one comes first in a text, whatever follows them. -/
theorem ofPoint_append_lt {low high : Nat} (less : low < high) (valid : IsPoint high)
    (front back : List Char) : ofPoint low ++ front < ofPoint high ++ back := by
  have number : mark.toNat = 0xD7FF := rfl
  have plain {point : Nat} (valid : IsPoint point) (apart : ¬(0xD7FF ≤ point ∧ point < 0xE000)) :
      (Char.ofNat point).toNat = point := by
    apply toNat_ofNat_of_not_half valid
    simp only [isHalf, Bool.and_eq_false_iff, decide_eq_false_iff_not]
    omega
  have below : IsPoint low := Nat.lt_trans less valid
  unfold ofPoint
  split
  case isTrue first =>
    split
    case isTrue second =>
      refine List.cons_lt_cons_iff.mpr (.inr ⟨rfl, List.cons_lt_cons_iff.mpr (.inl ?_)⟩)
      rw [char_lt_iff_toNat, toNat_teller first.1 first.2, toNat_teller second.1 second.2]
      omega
    case isFalse second =>
      refine List.cons_lt_cons_iff.mpr (.inl ?_)
      rw [char_lt_iff_toNat, number, plain valid second]
      omega
  case isFalse first =>
    split
    case isTrue second =>
      refine List.cons_lt_cons_iff.mpr (.inl ?_)
      rw [char_lt_iff_toNat, number, plain below first]
      omega
    case isFalse second =>
      refine List.cons_lt_cons_iff.mpr (.inl ?_)
      rw [char_lt_iff_toNat, plain below first, plain valid second]
      exact less

theorem append_lt_append_iff (same front back : List Char) :
    same ++ front < same ++ back ↔ front < back := by
  induction same with
  | nil => rfl
  | cons item rest ih =>
    rw [List.cons_append, List.cons_append, List.cons_lt_cons_iff, ih]
    simp only [Char.lt_irrefl, false_or, true_and]

/-- Texts compare as their code points do. -/
theorem ofPoints_lt_iff {first second : List Nat} (valid : ∀ point ∈ first, IsPoint point)
    (other : ∀ point ∈ second, IsPoint point) :
    ofPoints first < ofPoints second ↔ first < second := by
  rw [String.lt_iff_toList_lt, ofPoints, ofPoints, String.toList_ofList, String.toList_ofList]
  induction first generalizing second with
  | nil =>
    cases second with
    | nil => simp only [List.flatMap_nil, List.lt_irrefl]
    | cons point rest =>
      have some : (point :: rest).flatMap ofPoint ≠ [] := by
        rw [List.flatMap_cons, ofPoint]
        split <;> exact List.cons_ne_nil _ _
      obtain ⟨c, more, split⟩ := List.exists_cons_of_ne_nil some
      rw [split, List.flatMap_nil]
      exact iff_of_true (List.nil_lt_cons _ _) (List.nil_lt_cons _ _)
  | cons low rest ih =>
    obtain ⟨here, later⟩ := List.forall_mem_cons.mp valid
    cases second with
    | nil =>
      rw [List.flatMap_nil]
      exact iff_of_false (List.not_lt_nil _) (List.not_lt_nil _)
    | cons high more =>
      obtain ⟨there, others⟩ := List.forall_mem_cons.mp other
      rw [List.flatMap_cons, List.flatMap_cons, List.cons_lt_cons_iff]
      rcases Nat.lt_trichotomy low high with less | rfl | greater
      · exact iff_of_true (ofPoint_append_lt less there _ _) (.inl less)
      · rw [append_lt_append_iff, ih later others]
        simp only [Nat.lt_irrefl, false_or, true_and]
      · refine iff_of_false (List.lt_asymm (ofPoint_append_lt greater here _ _)) ?_
        rintro (less | ⟨same, -⟩) <;> omega

theorem isHalf_toNat (c : Char) : isHalf c.toNat = false := by
  have valid : c.toNat.isValidChar := c.valid
  simp only [Nat.isValidChar] at valid
  simp only [isHalf, Bool.and_eq_false_iff, decide_eq_false_iff_not]
  omega

theorem map_ofNat_map_toNat (chars : List Char) : (chars.map Char.toNat).map Char.ofNat = chars := by
  rw [List.map_map]
  exact (List.map_congr_left fun c _ => Char.ofNat_toNat c).trans (List.map_id _)

section Encoding

variable {bytes : ByteArray}

/-- The text holds the code points of some characters, and the bytes are theirs. -/
def Encodes (text : String) (bytes : ByteArray) : Prop :=
  ∃ outer : String, points text.toList = outer.toList.map Char.toNat ∧ bytes = outer.toUTF8

/-- A code point of the text is half of a surrogate pair. -/
def Halved (text : String) : Prop := ∃ point ∈ points text.toList, 0xD800 ≤ point ∧ point < 0xE000

theorem halved_iff : Halved text ↔ (points text.toList).any isHalf = true := by
  simp only [List.any_eq_true, isHalf, Bool.and_eq_true, decide_eq_true_eq, Halved]

theorem not_halved_iff : ¬Halved text ↔ (points text.toList).any isHalf = false := by
  rw [halved_iff, Bool.not_eq_true]

theorem Encodes.not_halved (encodes : Encodes text bytes) : ¬Halved text := by
  obtain ⟨outer, same, -⟩ := encodes
  rw [not_halved_iff, same, List.any_eq_false]
  intro point found
  obtain ⟨c, -, rfl⟩ := List.mem_map.mp found
  rw [isHalf_toNat]
  exact Bool.false_ne_true

theorem encodes_of_not_halved (whole : ¬Halved text) :
    Encodes text (String.ofList ((points text.toList).map Char.ofNat)).toUTF8 := by
  rw [not_halved_iff, List.any_eq_false] at whole
  refine ⟨_, ?_, rfl⟩
  rw [String.toList_ofList, List.map_map]
  refine ((List.map_congr_left fun point found => ?_).trans (List.map_id _)).symm
  exact toNat_ofNat_of_not_half (isPoint_of_mem_points found)
    (eq_false_of_ne_true (whole point found))

theorem encodes_or_halved (text : String) : (∃ bytes, Encodes text bytes) ∨ Halved text := by
  by_cases halved : Halved text
  · exact .inr halved
  · exact .inl ⟨_, encodes_of_not_halved halved⟩

theorem encodes_toUTF8 (absent : mark ∉ text.toList) : Encodes text text.toUTF8 :=
  ⟨text, points_eq_map absent, rfl⟩

theorem encode_of_halved (halved : Halved text) : encode text = .error .unencodable := by
  rw [encode, release]
  simp only [halved_iff.mp halved, ↓reduceIte]
  rfl

theorem encode_of_encodes (encodes : Encodes text bytes) : encode text = .ok bytes := by
  have whole := not_halved_iff.mp encodes.not_halved
  obtain ⟨outer, same, rfl⟩ := encodes
  rw [encode, release]
  simp only [whole, Bool.false_eq_true, ↓reduceIte]
  rw [same, map_ofNat_map_toNat, String.ofList_toList]
  rfl

theorem encode_eq_error {fault : Fault} (failed : encode text = .error fault) :
    fault = .unencodable := by
  rcases encodes_or_halved text with ⟨bytes, encodes⟩ | halved
  · rw [encode_of_encodes encodes] at failed
    cases failed
  · rw [encode_of_halved halved] at failed
    exact (Except.error.inj failed).symm

end Encoding

section Sizes

variable {first second : String}

theorem size_append_of_head (plain : ∀ c ∈ second.toList.head?, Plain c) (first : String) :
    size (first ++ second) = size first + size second := by
  rw [size, String.toList_append, points_append_of_head plain, List.map_append, String.ofList_append,
    String.utf8ByteSize_append]
  rfl

theorem size_append_of_getLast (plain : ∀ c ∈ first.toList.getLast?, Plain c) (second : String) :
    size (first ++ second) = size first + size second := by
  rw [size, String.toList_append, points_append_of_getLast plain, List.map_append,
    String.ofList_append, String.utf8ByteSize_append]
  rfl

theorem size_eq_utf8ByteSize (absent : mark ∉ text.toList) : size text = text.utf8ByteSize := by
  rw [size, points_eq_map absent, map_ofNat_map_toNat, String.ofList_toList]

end Sizes

end NodeSmith.Text
