import Mathlib.Data.List.Nodup
import Mathlib.Data.List.Perm.Subperm
import Mathlib.Data.String.Basic
import NodeSmith.Proofs.Files.Walks

set_option autoImplicit false

namespace NodeSmith

open Outcome

namespace FileStore

variable {hint : String} {number first second : Nat}

def paddedDigits (number : Nat) : List Char :=
  List.replicate (8 - (toString number).length) '0' ++ Nat.toDigits 10 number

theorem stagedName_eq (hint : String) (number : Nat) : stagedName hint number =
    "." ++ hint ++ "." ++ String.ofList (paddedDigits number) ++ ".tmp" := by
  rw [stagedName, paddedDigits, String.ofList_append, ← Nat.toString_eq_ofList_toDigits,
    ← String.append_assoc]

theorem isDigit_of_mem_paddedDigits {c : Char} (found : c ∈ paddedDigits number) :
    c.isDigit = true := by
  rcases List.mem_append.mp found with zero | digit
  · rw [List.eq_of_mem_replicate zero]
    rfl
  · exact Nat.isDigit_of_mem_toDigits (by decide) (by decide) digit

/-- Zeros in front do not change the number that is read. -/
theorem ofDigitChars_paddedDigits (number : Nat) :
    Nat.ofDigitChars 10 (paddedDigits number) 0 = number := by
  rw [paddedDigits, Nat.ofDigitChars_append, Nat.ofDigitChars_replicate_zero, Nat.mul_zero,
    Nat.ofDigitChars_ten_toDigits]

theorem length_paddedDigits (few : number < 10 ^ 8) : (paddedDigits number).length = 8 := by
  have short : (Nat.toDigits 10 number).length ≤ 8 :=
    (Nat.length_toDigits_le_iff (by decide) (by decide)).mpr few
  rw [paddedDigits, List.length_append, List.length_replicate, Nat.toString_eq_ofList_toDigits,
    String.length_ofList]
  omega

theorem stagedName_injective (same : stagedName hint first = stagedName hint second) :
    first = second := by
  rw [stagedName_eq, stagedName_eq, String.append_left_inj, String.append_right_inj,
    String.ofList_inj] at same
  rw [← ofDigitChars_paddedDigits first, same, ofDigitChars_paddedDigits]

theorem length_add_lt_length_stagedName (hint : String) (number : Nat) :
    hint.length + 2 < (stagedName hint number).length := by
  have dots : ".".length = 1 ∧ ".tmp".length = 4 := by decide
  simp only [stagedName_eq, String.length_append, dots]
  omega

theorem ne_stagedName (hint : String) (number : Nat) : hint ≠ stagedName hint number := by
  intro same
  have long := length_add_lt_length_stagedName hint number
  rw [← same] at long
  omega

/-- What a staged name ends in, after the name that it is made for. -/
def ending (number : Nat) : String := "." ++ String.ofList (paddedDigits number) ++ ".tmp"

theorem stagedName_eq_append (hint : String) (number : Nat) :
    stagedName hint number = "." ++ (hint ++ ending number) := by
  simp only [stagedName_eq, ending, String.append_assoc]

theorem ne_of_mem_ending {c : Char} (found : c ∈ (ending number).toList) :
    c.toNat ≠ 0 ∧ c ≠ '/' ∧ c ≠ Text.mark := by
  have fixed : ∀ c ∈ ".".toList ++ ".tmp".toList, c.toNat ≠ 0 ∧ c ≠ '/' ∧ c ≠ Text.mark := by
    rw [String.toList_ofList, String.toList_ofList, ← List.forall_iff_forall_mem]
    decide
  have digits : ∀ c ∈ paddedDigits number, c.toNat ≠ 0 ∧ c ≠ '/' ∧ c ≠ Text.mark := by
    intro c digit
    have low : 48 ≤ c.toNat := (Char.isDigit_iff_toNat.mp (isDigit_of_mem_paddedDigits digit)).1
    have high : c.toNat ≤ 57 := (Char.isDigit_iff_toNat.mp (isDigit_of_mem_paddedDigits digit)).2
    refine ⟨by omega, ?_, ?_⟩ <;> rintro rfl
    · exact absurd low (by decide)
    · exact absurd high (by decide)
  simp only [ending, String.toList_append, List.mem_append, String.toList_ofList] at found
  rcases found with (dot | digit) | rest
  · exact fixed c (List.mem_append_left _ dot)
  · exact digits c digit
  · exact fixed c (List.mem_append_right _ rest)

theorem plain_getLast?_dot : ∀ c ∈ ".".toList.getLast?, Text.Plain c := by
  rintro c ⟨⟩
  decide

theorem plain_head?_ending (number : Nat) : ∀ c ∈ (ending number).toList.head?, Text.Plain c := by
  rw [ending, String.append_assoc, String.toList_append]
  rintro c ⟨⟩
  decide

theorem vet_stagedName (vetted : Path.vet hint = .ok ()) (number : Nat) :
    Path.vet (stagedName hint number) = .ok () := by
  rw [stagedName_eq_append, Path.vet_append_of_getLast plain_getLast?_dot,
    Path.vet_append_of_head (plain_head?_ending number)]
  exact ⟨rfl, vetted, Path.vet_of_absent (fun found => (ne_of_mem_ending found).2.2 rfl)
    fun c found => (ne_of_mem_ending found).1⟩

theorem ordinary_stagedName (ordinary : Path.Ordinary hint) (number : Nat) :
    Path.Ordinary (stagedName hint number) := by
  have long := length_add_lt_length_stagedName hint number
  refine Path.ordinary_of_length (by omega) ?_ (vet_stagedName ordinary.vetted number)
  rw [stagedName_eq_append, String.toList_append, String.toList_append, List.mem_append,
    List.mem_append]
  rintro (dot | named | added)
  · exact absurd dot (by decide)
  · exact ordinary.no_slash named
  · exact (ne_of_mem_ending added).2.1 rfl

theorem utf8Len_eq_length {chars : List Char} (single : ∀ c ∈ chars, c.utf8Size = 1) :
    String.utf8Len chars = chars.length := by
  induction chars with
  | nil => rfl
  | cons c rest ih =>
    obtain ⟨one, others⟩ := List.forall_mem_cons.mp single
    rw [String.utf8Len_cons, ih others, one, List.length_cons]

theorem utf8Size_of_isDigit {c : Char} (digit : c.isDigit = true) : c.utf8Size = 1 := by
  rw [Char.isDigit, Bool.and_eq_true, decide_eq_true_iff, decide_eq_true_iff] at digit
  exact Char.utf8Size_eq_one_iff.mpr (UInt32.le_trans digit.2 (by decide))

theorem size_ending (few : number < 10 ^ 8) : Text.size (ending number) = 13 := by
  have dots : ".".utf8ByteSize = 1 ∧ ".tmp".utf8ByteSize = 4 := by decide
  have digits : (String.ofList (paddedDigits number)).utf8ByteSize = 8 := by
    have single : ∀ c ∈ paddedDigits number, c.utf8Size = 1 :=
      fun c found => utf8Size_of_isDigit (isDigit_of_mem_paddedDigits found)
    rw [String.utf8ByteSize_ofList, utf8Len_eq_length single, length_paddedDigits few]
  rw [Text.size_eq_utf8ByteSize fun found => (ne_of_mem_ending found).2.2 rfl, ending]
  simp only [String.utf8ByteSize_append, dots, digits]

theorem size_stagedName (hint : String) (few : number < 10 ^ 8) :
    Text.size (stagedName hint number) = Text.size hint + 14 := by
  have dot : Text.size "." = 1 := by decide
  rw [stagedName_eq_append, Text.size_append_of_getLast plain_getLast?_dot,
    Text.size_append_of_head (plain_head?_ending number), size_ending few, dot]
  omega

def stagedPath (folder : List String) (hint : String) (number : Nat) : String :=
  Path.toString ⟨"/", folder ++ [stagedName hint number]⟩

/-- Neither the name nor the path of a staged file is too long. -/
@[mk_iff]
structure StagedFits (folder : List String) (hint : String) (number : Nat) : Prop where
  name : Text.size (stagedName hint number) ≤ Tree.nameLimit
  path : Text.size (stagedPath folder hint number) ≤ Tree.pathLimit

/-- The bytes of a path are those of the directory and those of the last name. -/
theorem size_toString_concat (folder : List String) (name : String) :
    Text.size (Path.toString ⟨"/", folder ++ [name]⟩) =
      Text.size (Path.toString ⟨"/", folder ++ [""]⟩) + Text.size name := by
  have slash : ∀ c ∈ "/".toList.getLast?, Text.Plain c := by
    rintro c ⟨⟩
    decide
  have spelling (last : String) : Path.toString ⟨"/", folder ++ [last]⟩ =
      "/" ++ "/".intercalate (folder ++ [last]) :=
    Path.toString_of_names_ne_nil (List.append_ne_nil_of_right_ne_nil _ (List.cons_ne_nil _ _))
  rw [spelling, spelling]
  by_cases top : folder = []
  · rw [top, List.nil_append, List.nil_append, String.intercalate_singleton,
      String.intercalate_singleton, Text.size_append_of_getLast slash, String.append_empty]
  · have last : ∀ c ∈ ("/" ++ ("/".intercalate folder ++ "/")).toList.getLast?, Text.Plain c := by
      rw [← String.append_assoc, String.toList_append]
      have single : "/".toList = ['/'] := rfl
      rw [single, List.getLast?_concat]
      exact slash
    rw [String.intercalate_append_of_ne_nil top (List.cons_ne_nil _ _),
      String.intercalate_append_of_ne_nil top (List.cons_ne_nil _ _),
      String.intercalate_singleton, String.intercalate_singleton, String.append_empty,
      ← String.append_assoc, Text.size_append_of_getLast last]

/-- A staged file fits if the name and the path it is made for have 14 bytes to spare. -/
theorem stagedFits_iff_spare (folder : List String) (hint : String) (few : number < 10 ^ 8) :
    StagedFits folder hint number ↔ Text.size hint + 14 ≤ Tree.nameLimit ∧
      Text.size (Path.toString ⟨"/", folder ++ [hint]⟩) + 14 ≤ Tree.pathLimit := by
  rw [stagedFits_iff, stagedPath, size_toString_concat folder (stagedName hint number),
    size_toString_concat folder hint, size_stagedName hint few, Nat.add_assoc]

end FileStore

namespace Tree

open FileStore (stagedName stagedPath StagedFits stagedName_injective ordinary_stagedName)

variable {tree : Tree} {folder : List String} {hint directory : String} {number : Nat}

section Leads

variable (formed : tree.WellFormed) (there : tree.entry? folder = some .directory)
  (ordinary : Path.Ordinary hint)
include formed there ordinary

theorem locate_staged (fits : StagedFits folder hint number) :
    tree.locate (stagedPath folder hint number) = .ok (folder ++ [stagedName hint number]) := by
  rw [stagedPath, formed.locate_entry there (ordinary_stagedName ordinary number)]
  exact if_pos ⟨fits.name, fits.path⟩

theorem locate_staged_of_not_fits (tight : ¬StagedFits folder hint number) :
    tree.locate (stagedPath folder hint number) = .error .nameTooLong := by
  rw [stagedPath, formed.locate_entry there (ordinary_stagedName ordinary number)]
  exact if_neg fun both => tight ⟨both.1, both.2⟩

end Leads

/-- Of one name more than a tree has entries one is free. -/
theorem exists_free (tree : Tree) (folder : List String) (hint : String) :
    ∃ number ≤ tree.entries.length, tree.entry? (folder ++ [stagedName hint number]) = none := by
  by_contra taken
  push Not at taken
  let locations := (List.range (tree.entries.length + 1)).map fun number =>
    folder ++ [stagedName hint number]
  have distinct : locations.Nodup := by
    refine List.nodup_range.map fun first second same => ?_
    exact stagedName_injective (List.singleton_inj.mp (List.append_cancel_left same))
  have listed : locations ⊆ Assoc.keys tree.entries := by
    intro location found
    obtain ⟨number, few, rfl⟩ := List.mem_map.mp found
    rw [List.mem_range, Nat.lt_succ_iff] at few
    exact mem_keys_of_there (taken number few)
      (List.append_ne_nil_of_right_ne_nil _ (List.cons_ne_nil _ _))
  have count := (distinct.subperm listed).length_le
  rw [List.length_map, List.length_range, Assoc.keys, List.length_map] at count
  omega

variable (formed : tree.WellFormed) (leads : tree.locate directory = .ok folder)
  (there : tree.entry? folder = some .directory) (ordinary : Path.Ordinary hint)
include formed leads there ordinary

/-- A staged file that is not too long is put under a name that was free. -/
theorem stage_of_fits
    (fits : ∀ number ≤ tree.entries.length, StagedFits folder hint number) :
    ∃ number ≤ tree.entries.length, tree.entry? (folder ++ [stagedName hint number]) = none ∧
      tree.stage directory hint = .ok (stagedPath folder hint number,
        tree.put (folder ++ [stagedName hint number]) (.file .empty)) := by
  have located (number : Nat) (few : number ≤ tree.entries.length) :=
    locate_staged formed there ordinary (fits number few)
  cases found : (tree.stagedPaths folder hint).find? fun path => (tree.kind? path).isNone with
  | none =>
    obtain ⟨number, few, free⟩ := tree.exists_free folder hint
    have listed : stagedPath folder hint number ∈ tree.stagedPaths folder hint :=
      List.mem_map.mpr ⟨number, List.mem_range.mpr (Nat.lt_succ_iff.mpr few), rfl⟩
    have taken := List.find?_eq_none.mp found _ listed
    rw [(kind?_eq_none_iff (located number few)).mpr free] at taken
    exact absurd rfl taken
  | some path =>
    obtain ⟨number, few, rfl⟩ := List.mem_map.mp (List.mem_of_find?_eq_some found)
    rw [List.mem_range, Nat.lt_succ_iff] at few
    rw [← stagedPath] at found
    have nothing : tree.kind? (stagedPath folder hint number) = none := by
      simpa using List.find?_some found
    refine ⟨number, few, (kind?_eq_none_iff (located number few)).mp nothing, ?_⟩
    rw [stage, leads, ok_bind, found]
    dsimp only
    rw [located number few, ok_bind]

/-- No staged file is made if its name or its path is too long already under the first number. -/
theorem stage_of_not_fits (tight : ¬StagedFits folder hint 0) :
    tree.stage directory hint = .error .nameTooLong := by
  have failed := locate_staged_of_not_fits formed there ordinary tight
  have first : (tree.stagedPaths folder hint).find? (fun path => (tree.kind? path).isNone) =
      some (stagedPath folder hint 0) := by
    rw [stagedPaths, List.range_succ_eq_map, List.map_cons, List.find?_cons_of_pos]
    · rfl
    · rw [kind?, find, ← stagedPath, failed]
      rfl
  rw [stage, leads, ok_bind, first]
  dsimp only
  rw [failed]
  rfl

end Tree

end NodeSmith
