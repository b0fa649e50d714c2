import Mathlib.Data.List.Infix
import NodeSmith.Files.Path
import NodeSmith.Proofs.Text.Parts
import NodeSmith.Proofs.Text.Points

set_option autoImplicit false

namespace NodeSmith

namespace Path

/-- A name that stands for an entry of its directory. -/
@[mk_iff]
structure Ordinary (name : String) : Prop where
  ne_empty : name ≠ ""
  ne_dot : name ≠ "."
  ne_up : name ≠ ".."
  no_slash : '/' ∉ name.toList
  vetted : vet name = .ok ()

instance (name : String) : Decidable (Ordinary name) := decidable_of_iff' _ (ordinary_iff name)

theorem ordinary_of_length {name : String} (long : 2 < name.length) (plain : '/' ∉ name.toList)
    (vetted : vet name = .ok ()) : Ordinary name := by
  have differs (other : String) (short : other.length ≤ 2) : name ≠ other := by
    rintro rfl
    omega
  exact ⟨differs "" (by decide), differs "." (by decide), differs ".." (by decide), plain,
    vetted⟩

/-- The system takes a path with no half of a surrogate pair and no null character in it. -/
theorem vet_eq_ok_iff {text : String} : vet text = .ok () ↔
    ∀ point ∈ Text.points text.toList, Text.isHalf point = false ∧ point ≠ 0 := by
  unfold vet
  dsimp only
  cases halved : (Text.points text.toList).any Text.isHalf with
  | true =>
    obtain ⟨point, found, half⟩ := List.any_eq_true.mp halved
    rw [if_pos rfl]
    refine iff_of_false nofun fun whole => ?_
    rw [(whole point found).1] at half
    cases half
  | false =>
    rw [if_neg Bool.false_ne_true]
    cases ended : (Text.points text.toList).contains 0 with
    | true =>
      rw [if_pos rfl]
      exact iff_of_false nofun
        fun whole => (whole 0 (List.contains_iff_mem.mp ended)).2 rfl
    | false =>
      rw [if_neg Bool.false_ne_true]
      refine iff_of_true rfl fun point found => ⟨?_, ?_⟩
      · exact eq_false_of_ne_true (List.any_eq_false.mp halved point found)
      · rintro rfl
        rw [List.contains_iff_mem.mpr found] at ended
        cases ended

theorem vet_of_absent {text : String} (absent : Text.mark ∉ text.toList)
    (visible : ∀ c ∈ text.toList, c.toNat ≠ 0) : vet text = .ok () := by
  rw [vet_eq_ok_iff, Text.points_eq_map absent]
  intro point found
  obtain ⟨c, listed, rfl⟩ := List.mem_map.mp found
  exact ⟨Text.isHalf_toNat c, visible c listed⟩

section Parts

variable {first second : String}

theorem vet_append_of_head (plain : ∀ c ∈ second.toList.head?, Text.Plain c) :
    vet (first ++ second) = .ok () ↔ vet first = .ok () ∧ vet second = .ok () := by
  simp only [vet_eq_ok_iff, String.toList_append, Text.points_append_of_head plain,
    List.forall_mem_append]

theorem vet_append_of_getLast (plain : ∀ c ∈ first.toList.getLast?, Text.Plain c) :
    vet (first ++ second) = .ok () ↔ vet first = .ok () ∧ vet second = .ok () := by
  simp only [vet_eq_ok_iff, String.toList_append, Text.points_append_of_getLast plain,
    List.forall_mem_append]

end Parts

theorem vet_intercalate_iff {names : List String} :
    vet ("/".intercalate names) = .ok () ↔ ∀ name ∈ names, vet name = .ok () := by
  have slash : ∀ c ∈ "/".toList.getLast?, Text.Plain c := by
    rintro c ⟨⟩
    decide
  induction names with
  | nil => exact iff_of_true rfl (List.forall_mem_nil _)
  | cons name rest ih =>
    cases rest with
    | nil => rw [String.intercalate_singleton, List.forall_mem_singleton]
    | cons next more =>
      have head : ∀ c ∈ ("/" ++ "/".intercalate (next :: more)).toList.head?, Text.Plain c := by
        rw [String.toList_append]
        exact slash
      rw [String.intercalate_cons_cons, String.append_assoc, vet_append_of_head head,
        vet_append_of_getLast slash, List.forall_mem_cons]
      exact and_congr_right fun _ => (and_iff_right rfl).trans ih

/-- The root is only slashes, and the names are pieces between slashes. -/
structure Spelled (path : Path) : Prop where
  root : Text.Free (· != '/') path.root
  names : ∀ name ∈ path.names, name ≠ "" ∧ '/' ∉ name.toList

theorem rootOf_mem (text : String) : rootOf text ∈ ["", "/", "//"] := by
  unfold rootOf
  split <;> decide

theorem spelled_ofString (text : String) : (ofString text).Spelled := by
  constructor
  case root =>
    have each : ∀ root ∈ ["", "/", "//"], Text.Free (· != '/') root := by decide
    exact each _ (rootOf_mem text)
  case names =>
    intro name found
    obtain ⟨piece, kept⟩ := List.mem_filter.mp found
    obtain ⟨chars, stretch, rfl⟩ := List.mem_map.mp piece
    rw [Bool.and_eq_true, bne_iff_ne, bne_iff_ne] at kept
    refine ⟨kept.1, ?_⟩
    rw [String.toList_ofList]
    exact Text.not_mem_of_mem_splitOn stretch

/-- An ordinary name spells the relative path to it. -/
theorem ofString_of_ordinary {name : String} (ordinary : Ordinary name) :
    ofString name = ⟨"", [name]⟩ := by
  have root : rootOf name = "" := by
    obtain ⟨c, rest, split⟩ := List.exists_cons_of_ne_nil
      (mt String.toList_eq_nil_iff.mp ordinary.ne_empty)
    have visible : c ≠ '/' := by
      rintro rfl
      exact ordinary.no_slash (split ▸ List.mem_cons_self)
    rw [rootOf, split, List.takeWhile_cons_of_neg (by simpa only [beq_iff_eq] using visible)]
  have whole : pieces name = [name] := by
    rw [pieces, List.splitOn_eq_singleton ordinary.no_slash, List.map_singleton,
      String.ofList_toList]
  have kept : [name].filter (fun name => name != "" && name != ".") = [name] := by
    rw [List.filter_eq_self, List.forall_mem_singleton, Bool.and_eq_true, bne_iff_ne, bne_iff_ne]
    exact ⟨ordinary.ne_empty, ordinary.ne_dot⟩
  rw [ofString, root, whole, kept]

variable {path : Path}

theorem Spelled.ordinary (spelled : path.Spelled) (named : path.name ∉ ["", ".", ".."])
    (vetted : vet path.name = .ok ()) : Ordinary path.name := by
  simp only [List.mem_cons, List.not_mem_nil, or_false, not_or] at named
  refine ⟨named.1, named.2.1, named.2.2, ?_, vetted⟩
  unfold name
  cases last : path.names.getLast? with
  | none => decide
  | some own => exact (spelled.names own (List.mem_of_getLast? last)).2

theorem Spelled.parent (spelled : path.Spelled) : path.parent.Spelled :=
  ⟨spelled.root, fun name found => spelled.names name (List.mem_of_mem_dropLast found)⟩

theorem names_ne_nil (named : path.name ≠ "") : path.names ≠ [] := by
  intro none
  rw [name, none] at named
  exact named rfl

theorem names_eq (named : path.name ≠ "") : path.names = path.parent.names ++ [path.name] := by
  have full := names_ne_nil named
  rw [name, List.getLast?_eq_some_getLast full, Option.getD_some, parent,
    List.dropLast_concat_getLast full]

theorem toString_of_names_ne_nil (full : path.names ≠ []) :
    path.toString = path.root ++ "/".intercalate path.names := by
  have some : path.names.isEmpty = false := List.isEmpty_eq_false_iff.mpr full
  rw [toString, some, Bool.and_false, if_neg Bool.false_ne_true]

theorem Spelled.vet_toString_iff (spelled : path.Spelled) :
    vet path.toString = .ok () ↔ ∀ name ∈ path.names, vet name = .ok () := by
  have slashes : ∀ c ∈ path.root.toList, c = '/' :=
    fun c found => bne_eq_false_iff_eq.mp (spelled.root c found)
  have plain : ∀ c ∈ path.root.toList.getLast?, Text.Plain c := by
    intro c last
    rw [slashes c (List.mem_of_getLast? last)]
    decide
  have root : vet path.root = .ok () := by
    refine vet_of_absent (fun found => absurd (slashes _ found) (by decide)) fun c found => ?_
    rw [slashes c found]
    decide
  by_cases none : path.names = []
  · rw [none]
    refine iff_of_true ?_ (List.forall_mem_nil _)
    unfold toString
    split
    · rfl
    · rwa [none, String.intercalate_nil, String.append_empty]
  · rw [toString_of_names_ne_nil none, vet_append_of_getLast plain, vet_intercalate_iff]
    exact and_iff_right root

/-- Each slash in front makes an empty piece. -/
theorem pieces_append_slashes {slashes text : String}
    (each : Text.Free (· != '/') slashes) :
    pieces (slashes ++ text) = (slashes.toList.map fun _ => "") ++ pieces text := by
  unfold Text.Free at each
  rw [pieces, pieces, String.toList_append]
  generalize slashes.toList = chars at each
  induction chars with
  | nil => rfl
  | cons c rest ih =>
    obtain ⟨slash, others⟩ := List.forall_mem_cons.mp each
    rw [bne_eq_false_iff_eq] at slash
    rw [slash, List.cons_append, List.splitOn_cons_eq_if_modifyHead, if_pos (by decide),
      List.map_cons, ih others]
    rfl

theorem pieces_intercalate {names : List String} (full : names ≠ [])
    (plain : ∀ name ∈ names, '/' ∉ name.toList) : pieces ("/".intercalate names) = names := by
  have slash : "/".toList = ['/'] := rfl
  have each : ∀ chars ∈ names.map String.toList, '/' ∉ chars := by
    intro chars found
    obtain ⟨name, listed, rfl⟩ := List.mem_map.mp found
    exact plain name listed
  rw [pieces, String.toList_intercalate, slash, List.splitOn_intercalate '/' each
    (by rwa [ne_eq, List.map_eq_nil_iff]), List.map_map]
  simp

/-- What is walked through is the root and then the names. -/
theorem Spelled.pieces_eq (spelled : path.Spelled) (full : path.names ≠ []) :
    pieces path.toString = (path.root.toList.map fun _ => "") ++ path.names := by
  rw [toString_of_names_ne_nil full, pieces_append_slashes spelled.root,
    pieces_intercalate full fun name found => (spelled.names name found).2]

theorem Spelled.toString_ne_empty (spelled : path.Spelled) (full : path.names ≠ []) :
    path.toString ≠ "" := by
  intro empty
  have blank : pieces "" = [""] := rfl
  have split := spelled.pieces_eq full
  obtain ⟨name, listed⟩ := List.exists_mem_of_ne_nil _ full
  rw [empty, blank] at split
  have only : name ∈ [""] := split ▸ List.mem_append_right _ listed
  exact (spelled.names name listed).1 (List.mem_singleton.mp only)

theorem Spelled.pieces_of_names_eq_nil (spelled : path.Spelled) (none : path.names = []) :
    ∃ still ∈ ["", "."], pieces path.toString = (path.root.toList.map fun _ => "") ++ [still] := by
  by_cases relative : path.root = ""
  · refine ⟨".", by decide, ?_⟩
    rw [toString, relative, none]
    rfl
  · refine ⟨"", by decide, ?_⟩
    have spelling : path.toString = path.root ++ "" := by
      rw [toString, none, decide_eq_false relative]
      rfl
    rw [spelling, pieces_append_slashes spelled.root]
    rfl

/-- That a path is absolute is seen from its spelling. -/
theorem Spelled.head?_toString (spelled : path.Spelled) :
    path.toString.toList.head? = some '/' ↔ path.root ≠ "" := by
  by_cases relative : path.root = ""
  · simp only [relative, ne_eq, not_true_eq_false, iff_false]
    cases listed : path.names with
    | nil =>
      rw [toString, relative, listed]
      decide
    | cons first rest =>
      obtain ⟨named, plain⟩ := spelled.names first (listed ▸ List.mem_cons_self)
      obtain ⟨c, chars, split⟩ := List.exists_cons_of_ne_nil (mt String.toList_eq_nil_iff.mp named)
      have start : path.toString.toList.head? = some c := by
        rw [toString_of_names_ne_nil (listed ▸ List.cons_ne_nil _ _), relative, listed,
          String.empty_append]
        cases rest with
        | nil => rw [String.intercalate_singleton, split, List.head?_cons]
        | cons =>
          rw [String.intercalate_cons_cons, String.toList_append, String.toList_append, split]
          rfl
      rw [start]
      rintro ⟨⟩
      exact plain (split ▸ List.mem_cons_self)
  · obtain ⟨c, chars, split⟩ := List.exists_cons_of_ne_nil (mt String.toList_eq_nil_iff.mp relative)
    have slash : c = '/' := bne_eq_false_iff_eq.mp (spelled.root c (split ▸ List.mem_cons_self))
    have spelling : path.toString = path.root ++ "/".intercalate path.names := by
      rw [toString, decide_eq_false relative, Bool.false_and, if_neg Bool.false_ne_true]
    rw [spelling, String.toList_append, split, slash]
    simp only [List.cons_append, List.head?_cons, ne_eq, relative, not_false_eq_true]

end Path

end NodeSmith
