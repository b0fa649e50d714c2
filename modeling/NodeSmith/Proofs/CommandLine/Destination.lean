import Mathlib.Data.List.DropRight
import NodeSmith.CommandLine.Session
import NodeSmith.Proofs.Files.Walks

set_option autoImplicit false

namespace NodeSmith

open Outcome

namespace Session

/-- The names that a text spells: what stands between its slashes, without what stays in place. -/
def namesOf (text : String) : List String :=
  ((text.toList.splitOn '/').map String.ofList).filter fun name => name ∉ ["", "."]

/-- A text leads to a location of a tree: its names do, from the root if it starts with a slash, and
from the working directory otherwise. -/
def Leads (tree : Tree) (text : String) (goal : List String) : Prop :=
  tree.follow (tree.origin text) (namesOf text) = .ok goal

/-- The text up to its last slash, which is included. -/
def folderOf (text : String) : String := String.ofList (text.toList.rdropWhile (· != '/'))

/-- A path goes the way that a text tells. -/
structure Spells (text : String) (path : Path) : Prop where
  spelled : path.Spelled
  names : path.names = namesOf text
  root : path.root ≠ "" ↔ text.toList.head? = some '/'

variable {text name : String} {path target : Path} {tree : Tree} {goal location : List String}

theorem rootOf_ne_empty_iff : Path.rootOf text ≠ "" ↔ text.toList.head? = some '/' := by
  rw [Path.rootOf]
  cases text.toList with
  | nil => exact iff_of_false (fun full => full rfl) (Option.some_ne_none '/').symm
  | cons c rest =>
    rw [List.head?_cons]
    by_cases slash : c = '/'
    · rw [slash, List.takeWhile_cons_of_pos (by decide)]
      refine iff_of_true ?_ rfl
      split <;> first | decide | contradiction
    · rw [List.takeWhile_cons_of_neg (by simpa only [beq_iff_eq] using slash)]
      exact iff_of_false (fun full => full rfl) fun same => slash (Option.some.inj same)

theorem spells_ofString (text : String) : Spells text (Path.ofString text) := by
  refine ⟨Path.spelled_ofString text, ?_, rootOf_ne_empty_iff⟩
  refine List.filter_congr fun name _ => ?_
  simp only [List.mem_cons, List.not_mem_nil, or_false, not_or, bne, Bool.decide_and,
    decide_not, beq_eq_decide]

/-- The pieces of the folder of a text stay in front of what follows the folder. -/
theorem exists_splitOn_folderOf (text : String) :
    ∃ front, ∀ more, ((folderOf text).toList ++ more).splitOn '/' = front ++ more.splitOn '/' := by
  rw [folderOf, String.toList_ofList]
  rcases List.eq_nil_or_concat (text.toList.rdropWhile (· != '/')) with none | ⟨front, c, last⟩
  · exact ⟨[], fun more => by rw [none]; rfl⟩
  · rw [List.concat_eq_append] at last
    have slash : c = '/' := by
      have stops := List.rdropWhile_last_not (· != '/') text.toList (by
        rw [last]
        exact List.append_ne_nil_of_right_ne_nil _ (List.cons_ne_nil _ _))
      simpa only [last, List.getLast_concat, bne_iff_ne, ne_eq, not_not] using stops
    refine ⟨front.splitOn '/', fun more => ?_⟩
    rw [last, slash, List.append_assoc, List.singleton_append, List.splitOn_eq_splitOnP,
      List.splitOnP_append_cons _ _ (by decide), List.splitOn_eq_splitOnP, List.splitOn_eq_splitOnP]

theorem namesOf_folderOf_append (text more : String) :
    namesOf (folderOf text ++ more) = namesOf (folderOf text) ++ namesOf more := by
  obtain ⟨front, split⟩ := exists_splitOn_folderOf text
  have alone := split []
  have empty : namesOf "" = [] := rfl
  have kept (more : String) : namesOf (folderOf text ++ more) =
      ((front.map String.ofList).filter fun name => name ∉ ["", "."]) ++ namesOf more := by
    rw [namesOf, String.toList_append, split, List.map_append, List.filter_append, namesOf]
  have folder := kept ""
  rw [String.append_empty, empty, List.append_nil] at folder
  rw [kept, folder]

def lastOf (text : String) : String := String.ofList (text.toList.rtakeWhile (· != '/'))

theorem folderOf_append_lastOf (text : String) : folderOf text ++ lastOf text = text := by
  rw [folderOf, lastOf, ← String.ofList_append, List.rdropWhile_append_rtakeWhile,
    String.ofList_toList]

theorem pieces_lastOf (text : String) : Path.pieces (lastOf text) = [lastOf text] := by
  have plain : '/' ∉ (lastOf text).toList := by
    rw [lastOf, String.toList_ofList]
    intro found
    exact absurd (List.mem_rtakeWhile_imp found) (by decide)
  rw [Path.pieces, List.splitOn_eq_singleton plain, List.map_singleton, String.ofList_toList]

/-- Without its last name a text spells its folder. -/
theorem dropLast_namesOf (kept : lastOf text ∉ ["", "."]) :
    (namesOf text).dropLast = namesOf (folderOf text) := by
  have last : namesOf (lastOf text) = [lastOf text] := by
    have single := pieces_lastOf text
    rw [Path.pieces] at single
    rw [namesOf, single]
    simp only [List.filter_cons, kept, not_false_eq_true, decide_true, ↓reduceIte, List.filter_nil]
  conv_lhs => rw [← folderOf_append_lastOf text]
  rw [namesOf_folderOf_append, last, List.dropLast_concat]

theorem head?_folderOf_append (relative : name.toList.head? ≠ some '/') :
    (folderOf text ++ name).toList.head? = some '/' ↔ text.toList.head? = some '/' := by
  conv_rhs => rw [← folderOf_append_lastOf text]
  rw [String.toList_append, String.toList_append]
  cases (folderOf text).toList with
  | cons c rest => rw [List.cons_append, List.cons_append, List.head?_cons, List.head?_cons]
  | nil =>
    rw [List.nil_append, List.nil_append]
    refine iff_of_false relative fun slash => ?_
    rw [lastOf, String.toList_ofList] at slash
    exact absurd (List.mem_rtakeWhile_imp (List.mem_of_mem_head? slash)) (by decide)

theorem Spells.beside (kept : lastOf text ∉ ["", "."]) (relative : name.toList.head? ≠ some '/') :
    Spells (folderOf text ++ name) ((Path.ofString text).parent.join (Path.ofString name)) := by
  have above := spells_ofString text
  have below := spells_ofString name
  have root : (Path.ofString name).root = "" := not_not.mp (mt below.root.mp relative)
  rw [Path.join, if_pos root]
  refine ⟨⟨above.spelled.root, ?_⟩, ?_, ?_⟩
  · exact List.forall_mem_append.mpr ⟨above.spelled.parent.names, below.spelled.names⟩
  · rw [namesOf_folderOf_append, ← dropLast_namesOf kept, ← above.names, ← below.names]
    rfl
  · exact above.root.trans (head?_folderOf_append relative).symm

section Walks

variable (spells : Spells text path)
include spells

theorem Spells.start_eq (tree : Tree) : tree.start path = tree.origin text := by
  simp only [Tree.start, Tree.origin, ← spells.root, ite_not]

theorem Spells.leads (located : tree.locate path.toString = .ok goal) : Leads tree text goal := by
  rw [Leads, ← spells.start_eq, ← spells.names, Tree.follow_of_locate spells.spelled located]

end Walks

end Session

end NodeSmith
