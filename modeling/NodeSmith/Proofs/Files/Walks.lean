import NodeSmith.Proofs.Files.Changes
import NodeSmith.Proofs.Files.Paths

set_option autoImplicit false

namespace NodeSmith

open Outcome

namespace Tree

variable {tree : Tree} {location folder goal : List String}

theorem follow_append (tree : Tree) (location front back : List String) :
    tree.follow location (front ++ back) =
      tree.follow location front >>= fun middle => tree.follow middle back := by
  fun_induction tree.follow location front with
  | case1 => rfl
  | case2 location name rest found long =>
    rw [List.cons_append, follow, found]
    simp only [long, ↓reduceIte]
    rfl
  | case3 location name rest found short ih =>
    rw [List.cons_append, follow, found]
    simp only [short, ↓reduceIte, ih]
  | case4 location name rest bytes found =>
    rw [List.cons_append, follow, found]
    rfl
  | case5 location name rest found =>
    rw [List.cons_append, follow, found]
    rfl

/-- From a directory an ordinary name leads one step down, unless it is too long. -/
theorem follow_name {name : String} (directory : tree.entry? location = some .directory)
    (ordinary : Path.Ordinary name) : tree.follow location [name] =
      if nameLimit < Text.size name then .error .nameTooLong else .ok (location ++ [name]) := by
  simp only [follow, directory, descend, ordinary.ne_empty, ordinary.ne_dot, ordinary.ne_up,
    decide_false, Bool.or_self, Bool.false_eq_true, ↓reduceIte]

theorem eq_of_follow_still {name : String} (still : name ∈ ["", "."])
    (leads : tree.follow location [name] = .ok goal) : goal = location := by
  have stays : descend location name = location := by
    rcases List.mem_pair.mp still with rfl | rfl <;> rfl
  simp only [follow] at leads
  split at leads
  · split at leads
    · cases leads
    · rw [stays] at leads
      exact (Except.ok.inj leads).symm
  · cases leads
  · cases leads

def start (tree : Tree) (path : Path) : List String := if path.root = "" then tree.working else []

theorem origin_toString {path : Path} (spelled : path.Spelled) :
    tree.origin path.toString = tree.start path := by
  simp only [origin, start, spelled.head?_toString, ite_not]

theorem locate_toString {path : Path} (spelled : path.Spelled) (some : path.toString ≠ "")
    (vetted : Path.vet path.toString = .ok ()) : tree.locate path.toString =
      if pathLimit < Text.size path.toString then .error .nameTooLong
      else tree.follow (tree.start path) (Path.pieces path.toString) := by
  rw [locate, vetted, ← origin_toString spelled]
  simp only [if_neg some, origin]

/-- Walking through its root, a path stays where it starts. -/
theorem follow_root_append (tree : Tree) (path : Path) (names : List String) :
    tree.follow (tree.start path) ((path.root.toList.map fun _ => "") ++ names) =
      tree.follow (tree.start path) names := by
  by_cases relative : path.root = ""
  · rw [relative]
    rfl
  · rw [start, if_neg relative]
    generalize path.root.toList = slashes
    induction slashes with
    | nil => rfl
    | cons c rest ih => exact ih

/-- Walking to a path is walking through its names. -/
theorem follow_of_locate {path : Path} (spelled : path.Spelled)
    (leads : tree.locate path.toString = .ok location) :
    tree.follow (tree.start path) path.names = .ok location := by
  obtain ⟨-, -, -, walked⟩ := locate_eq_ok_iff.mp leads
  rw [origin_toString spelled] at walked
  by_cases none : path.names = []
  · obtain ⟨still, stays, pieces⟩ := spelled.pieces_of_names_eq_nil none
    rw [pieces, follow_root_append] at walked
    rw [none, eq_of_follow_still stays walked]
    rfl
  · rw [← walked, spelled.pieces_eq none, follow_root_append]

/-- What a path leads to if the names before its last lead to a directory: the location of its name
there, unless something is too long. -/
theorem locate_of_follow {path : Path} (spelled : path.Spelled) (ordinary : Path.Ordinary path.name)
    (vetted : Path.vet path.toString = .ok ())
    (above : tree.follow (tree.start path) path.parent.names = .ok folder)
    (directory : tree.entry? folder = some .directory) : tree.locate path.toString =
      if Text.size path.name ≤ nameLimit ∧ Text.size path.toString ≤ pathLimit then
        .ok (folder ++ [path.name])
      else .error .nameTooLong := by
  have full := Path.names_ne_nil ordinary.ne_empty
  rw [locate_toString spelled (spelled.toString_ne_empty full) vetted, spelled.pieces_eq full,
    follow_root_append, Path.names_eq ordinary.ne_empty, follow_append, above, ok_bind,
    follow_name directory ordinary]
  by_cases long : pathLimit < Text.size path.toString
  · rw [if_pos long, if_neg fun both => Nat.not_lt.mpr both.2 long]
  · by_cases wide : nameLimit < Text.size path.name
    · rw [if_neg long, if_pos wide, if_neg fun both => Nat.not_lt.mpr both.1 wide]
    · rw [if_neg long, if_neg wide, if_pos ⟨Nat.not_lt.mp wide, Nat.not_lt.mp long⟩]

theorem locate_child {path : Path} (spelled : path.Spelled) (ordinary : Path.Ordinary path.name)
    (leads : tree.locate path.parent.toString = .ok folder)
    (directory : tree.entry? folder = some .directory) : tree.locate path.toString =
      if Text.size path.name ≤ nameLimit ∧ Text.size path.toString ≤ pathLimit then
        .ok (folder ++ [path.name])
      else .error .nameTooLong := by
  have names : ∀ name ∈ path.names, Path.vet name = .ok () := by
    rw [Path.names_eq ordinary.ne_empty, List.forall_mem_append, List.forall_mem_singleton]
    exact ⟨spelled.parent.vet_toString_iff.mp (locate_eq_ok_iff.mp leads).1, ordinary.vetted⟩
  exact locate_of_follow spelled ordinary (spelled.vet_toString_iff.mpr names)
    (follow_of_locate spelled.parent leads) directory

/-- The table of a tree lists entries of directories that are there, under names that there can
be. -/
structure WellFormed (tree : Tree) : Prop where
  directories : ∀ location ∈ Assoc.keys tree.entries,
    tree.entry? location.dropLast = some .directory
  names : ∀ location ∈ Assoc.keys tree.entries, ∀ name ∈ location,
    Path.Ordinary name ∧ Text.size name ≤ nameLimit

theorem mem_keys_of_there (there : tree.entry? location ≠ none) (below : location ≠ []) :
    location ∈ Assoc.keys tree.entries := by
  rw [Tree.entry?, if_neg below, ← Option.isSome_iff_ne_none, Assoc.isSome_get?_iff] at there
  exact there

theorem WellFormed.follow_location (formed : tree.WellFormed)
    (directory : tree.entry? location = some .directory) :
    tree.follow [] location = .ok location := by
  induction location using List.reverseRecOn with
  | nil => rfl
  | append_singleton above name ih =>
    have listed : above ++ [name] ∈ Assoc.keys tree.entries :=
      mem_keys_of_there (by rw [directory]; exact nofun)
        (List.append_ne_nil_of_right_ne_nil _ (List.cons_ne_nil _ _))
    have higher : tree.entry? above = some .directory := by
      have known := formed.directories _ listed
      rwa [List.dropLast_concat] at known
    obtain ⟨ordinary, short⟩ := formed.names _ listed name
      (List.mem_append_right _ List.mem_cons_self)
    rw [follow_append, ih higher, ok_bind, follow_name higher ordinary, if_neg (by omega)]

/-- The path from the root to a name in a directory leads there, unless something is too long. -/
theorem WellFormed.locate_entry (formed : tree.WellFormed) {name : String}
    (directory : tree.entry? folder = some .directory) (ordinary : Path.Ordinary name) :
    tree.locate (Path.toString ⟨"/", folder ++ [name]⟩) =
      if Text.size name ≤ nameLimit ∧
          Text.size (Path.toString ⟨"/", folder ++ [name]⟩) ≤ pathLimit then
        .ok (folder ++ [name])
      else .error .nameTooLong := by
  have names : ∀ piece ∈ folder ++ [name], Path.Ordinary piece := by
    intro piece found
    rcases List.mem_append.mp found with inner | last
    · have below : folder ≠ [] := List.ne_nil_of_mem inner
      exact (formed.names folder (mem_keys_of_there (by rw [directory]; exact nofun) below)
        piece inner).1
    · rw [List.mem_singleton.mp last]
      exact ordinary
  have slash : Text.Free (· != '/') "/" := by decide
  have spelled : Path.Spelled ⟨"/", folder ++ [name]⟩ :=
    ⟨slash, fun piece found => ⟨(names piece found).ne_empty, (names piece found).no_slash⟩⟩
  have last : Path.name ⟨"/", folder ++ [name]⟩ = name := by
    rw [Path.name, List.getLast?_concat, Option.getD_some]
  have above : tree.follow (tree.start ⟨"/", folder ++ [name]⟩) (folder ++ [name]).dropLast =
      .ok folder := by
    have absolute : "/" ≠ "" := by decide
    rw [List.dropLast_concat, start, if_neg absolute, formed.follow_location directory]
  have vetted : Path.vet (Path.toString ⟨"/", folder ++ [name]⟩) = .ok () :=
    spelled.vet_toString_iff.mpr fun piece found => (names piece found).vetted
  have located := locate_of_follow spelled (last.symm ▸ ordinary) vetted above directory
  rwa [last] at located

end Tree

end NodeSmith
