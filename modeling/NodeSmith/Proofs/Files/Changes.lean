import Mathlib.Data.List.Infix
import NodeSmith.Files.Tree
import NodeSmith.Proofs.Assoc
import NodeSmith.Proofs.Outcome

set_option autoImplicit false

namespace NodeSmith

open Outcome

namespace Tree

variable {tree first second third : Tree} {location other : List String} {entry : TreeEntry}

def file? (tree : Tree) (location : List String) : Option ByteArray :=
  match tree.entry? location with
  | some (.file bytes) => some bytes
  | _ => none

theorem ne_nil_of_not_directory (found : tree.entry? location ≠ some .directory) :
    location ≠ [] := by
  rintro rfl
  exact found rfl

theorem entry?_put (below : location ≠ []) : Tree.entry? (tree.put location entry) other =
    if other = location then some entry else tree.entry? other := by
  by_cases top : other = []
  · rw [top, if_neg (Ne.symm below)]
    rfl
  · rw [Tree.entry?, if_neg top, put, Assoc.get?_insert, Tree.entry?, if_neg top]
    simp only [eq_comm]

theorem put_put (first second : TreeEntry) :
    (tree.put location first).put location second = tree.put location second := by
  rw [put, put, Assoc.insert_insert]
  rfl

/-- What was put at a location where nothing was leaves no trace when it is erased. -/
theorem erase_put (free : tree.entry? location = none) :
    (tree.put location entry).erase location = tree := by
  have below : location ≠ [] := ne_nil_of_not_directory (by rw [free]; exact nofun)
  rw [Tree.entry?, if_neg below] at free
  rw [erase, put, Assoc.filter_insert_of_get?_eq_none free]

/-- The directories of a tree are there in another one, and relative paths start alike. -/
structure KeepsDirectories (before after : Tree) : Prop where
  working : after.working = before.working
  directory : ∀ location, before.entry? location = some .directory →
    after.entry? location = some .directory

theorem KeepsDirectories.trans (one : KeepsDirectories first second)
    (two : KeepsDirectories second third) : KeepsDirectories first third :=
  ⟨two.working.trans one.working, fun location found =>
    two.directory location (one.directory location found)⟩

theorem keepsDirectories_put (free : tree.entry? location ≠ some .directory) :
    KeepsDirectories tree (tree.put location entry) := by
  refine ⟨rfl, fun other found => ?_⟩
  have apart : other ≠ location := by
    rintro rfl
    exact free found
  rw [entry?_put (ne_nil_of_not_directory free), if_neg apart, found]

theorem KeepsDirectories.follow_eq (keeps : KeepsDirectories first second)
    {names goal : List String} (leads : first.follow location names = .ok goal) :
    second.follow location names = .ok goal := by
  fun_induction first.follow location names with
  | case1 location => exact leads
  | case2 => cases leads
  | case3 location name rest found short ih =>
    rw [follow, keeps.directory location found]
    simp only [short, ↓reduceIte]
    exact ih leads
  | case4 => cases leads
  | case5 => cases leads

/-- Where the walk to a path starts. -/
def origin (tree : Tree) (path : String) : List String :=
  if path.toList.head? = some '/' then [] else tree.working

theorem locate_eq_ok_iff {path : String} : tree.locate path = .ok location ↔
    Path.vet path = .ok () ∧ path ≠ "" ∧ Text.size path ≤ pathLimit ∧
      tree.follow (tree.origin path) (Path.pieces path) = .ok location := by
  unfold locate
  cases Path.vet path with
  | error fault => simp only [reduceCtorEq, false_and]
  | ok =>
    by_cases empty : path = ""
    · simp only [empty, ↓reduceIte, reduceCtorEq, ne_eq, not_true_eq_false, false_and, and_false]
    · by_cases long : pathLimit < Text.size path
      · simp only [empty, long, ↓reduceIte, reduceCtorEq, Nat.not_le.mpr long, false_and, and_false]
      · simp only [empty, long, ↓reduceIte, Nat.not_lt.mp long, ne_eq, not_false_eq_true, true_and,
          origin]

/-- A path leads where it led as long as the directories are there. -/
theorem KeepsDirectories.locate_eq (keeps : KeepsDirectories first second) {path : String}
    (leads : first.locate path = .ok location) : second.locate path = .ok location := by
  obtain ⟨vetted, named, short, walked⟩ := locate_eq_ok_iff.mp leads
  have origin : second.origin path = first.origin path := by
    rw [Tree.origin, Tree.origin, keeps.working]
  exact locate_eq_ok_iff.mpr ⟨vetted, named, short, origin ▸ keeps.follow_eq walked⟩

theorem find_eq_ok_iff {path : String} : tree.find path = .ok entry ↔
    ∃ location, tree.locate path = .ok location ∧ tree.entry? location = some entry := by
  rw [find, bind_eq_ok]
  refine exists_congr fun location => and_congr_right fun _ => ?_
  cases tree.entry? location with
  | none => exact ⟨nofun, nofun⟩
  | some held =>
    constructor
    · intro same
      rw [Except.ok.inj same]
    · intro same
      rw [Option.some.inj same]

theorem read_eq_ok_iff {path : String} {bytes : ByteArray} : tree.read path = .ok bytes ↔
    ∃ location, tree.locate path = .ok location ∧
      tree.entry? location = some (.file bytes) := by
  rw [← find_eq_ok_iff, read, bind_eq_ok]
  constructor
  · rintro ⟨held, found, read⟩
    cases held with
    | directory => cases read
    | file content =>
      rw [found, Except.ok.inj read]
  · intro found
    exact ⟨_, found, rfl⟩

/-- A path that leads to a location with nothing there leads to nothing, and the other way about
for a path that is known to lead to the location. -/
theorem kind?_eq_none_iff {path : String} (leads : tree.locate path = .ok location) :
    tree.kind? path = none ↔ tree.entry? location = none := by
  rw [kind?, find, leads, ok_bind]
  cases found : tree.entry? location with
  | none => exact ⟨fun _ => rfl, fun _ => rfl⟩
  | some held =>
    cases held with
    | directory => exact ⟨nofun, nofun⟩
    | file bytes => exact ⟨nofun, nofun⟩

theorem remove_eq {path : String} {bytes : ByteArray} (leads : tree.locate path = .ok location)
    (found : tree.entry? location = some (.file bytes)) :
    tree.remove path = .ok (tree.erase location) := by
  rw [remove, leads, ok_bind, found]

/-- A path leads to where a file can be written. -/
def Opens (tree : Tree) (path : String) (goal : List String) : Prop :=
  tree.locate path = .ok goal ∧ tree.entry? goal ≠ some .directory

theorem overwrite_eq_ok_iff {path : String} {bytes : ByteArray} :
    tree.overwrite path bytes = .ok second ↔
      ∃ goal, tree.Opens path goal ∧ second = tree.put goal (.file bytes) := by
  rw [overwrite, bind_eq_ok]
  constructor
  · rintro ⟨goal, leads, written⟩
    split at written
    · cases written
    · rename_i free
      exact ⟨goal, ⟨leads, free⟩, (Except.ok.inj written).symm⟩
  · rintro ⟨goal, ⟨leads, free⟩, rfl⟩
    refine ⟨goal, leads, ?_⟩
    split
    · rename_i found
      exact absurd found free
    · rfl

/-- Where some bytes cannot be written none can. -/
theorem overwrite_of_error {path : String} {bytes : ByteArray} {fault : Fault}
    (failed : tree.overwrite path bytes = .error fault) (filling : ByteArray) :
    tree.overwrite path filling = .error fault := by
  unfold overwrite at failed ⊢
  cases leads : tree.locate path with
  | error reason =>
    rw [leads] at failed
    exact failed
  | ok goal =>
    rw [leads, ok_bind] at failed
    rw [ok_bind]
    split at failed
    · exact failed
    · cases failed

theorem Opens.put {path : String} {goal : List String} (opens : tree.Opens path goal)
    (bytes : ByteArray) : (tree.put goal (.file bytes)).Opens path goal := by
  refine ⟨(keepsDirectories_put opens.2).locate_eq opens.1, ?_⟩
  rw [entry?_put (ne_nil_of_not_directory opens.2), if_pos rfl]
  exact nofun

end Tree

end NodeSmith
