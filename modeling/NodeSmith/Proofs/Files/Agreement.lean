import NodeSmith.Proofs.Files.History
import NodeSmith.Proofs.Files.Staging

set_option autoImplicit false

namespace NodeSmith

open Outcome

theorem Tree.kind?_eq_directory_iff {tree : Tree} {path : String} :
    tree.kind? path = some .directory ↔
      ∃ location, tree.locate path = .ok location ∧ tree.entry? location = some .directory := by
  rw [← find_eq_ok_iff, kind?]
  cases tree.find path with
  | error fault => simp only [reduceCtorEq]
  | ok entry =>
    cases entry with
    | directory => simp only
    | file bytes => simp only [Option.some.injEq, Except.ok.injEq, reduceCtorEq]

theorem Tree.endsInName_of_ordinary {path : Path} (spelled : path.Spelled)
    (ordinary : Path.Ordinary path.name) : endsInName path.toString = true := by
  have last : (Path.pieces path.toString).getLast? = some path.name := by
    rw [spelled.pieces_eq (Path.names_ne_nil ordinary.ne_empty),
      Path.names_eq ordinary.ne_empty, ← List.append_assoc, List.getLast?_concat]
  simp only [endsInName, last, ne_eq, ordinary.ne_empty, ordinary.ne_dot, ordinary.ne_up,
    not_false_eq_true, Bool.and_self, bne_iff_ne.mpr]

namespace Publication

open FileStore (stagedName stagedPath StagedFits)

variable {tree copied : Tree} {check : Option Check} {content : String}

section Directories

variable {path : Path} (there : tree.kind? path.toString = some .directory)
include there

theorem ensureDirectory_of_directory (onMissing : TreeM Unit) :
    ensureDirectory path onMissing tree = .ok () tree := by
  obtain ⟨location, leads, found⟩ := Tree.kind?_eq_directory_iff.mp there
  have refused : (FileStore.createDirectory path.toString : TreeM Unit) tree =
      .error .alreadyExists tree := by
    apply TreeM.change_of_error
    rw [Tree.createDirectory, leads, ok_bind, found]
  have known : (FileStore.kind? path.toString : TreeM (Option EntryKind)) tree =
      .ok (some .directory) tree := by
    simp only [FileStore.kind?, there]
  rw [ensureDirectory, TreeM.tryCatch_of_error _ refused, if_neg (by decide),
    TreeM.bind_of_ok _ known, if_pos rfl]
  rfl

theorem ensureDirectories_of_directory :
    (ensureDirectories path : TreeM Unit) tree = .ok () tree := by
  unfold ensureDirectories
  cases listed : path.names.reverse with
  | nil =>
    have whole : path = ⟨path.root, []⟩ := by
      rw [← List.reverse_eq_nil_iff.mp listed]
    exact ensureDirectory_of_directory (whole ▸ there) _
  | cons name above =>
    have whole : path = ⟨path.root, (name :: above).reverse⟩ := by
      rw [← listed, List.reverse_reverse]
    exact ensureDirectory_of_directory (whole ▸ there) _

end Directories

section Copies

variable {staged target : String} {location : List String} {bytes : ByteArray}

/-- Moving a copy does what writing does, as long as the target is not the copy. -/
theorem Copied.replace_eq_overwrite (copy : Copied staged location bytes tree copied)
    (same : copied.locate target = tree.locate target) (ends : Tree.endsInName target = true)
    (apart : tree.locate target ≠ .ok location) :
    copied.replace staged target = tree.overwrite target bytes := by
  have leads := copy.keepsDirectories.locate_eq copy.leads
  have read : copied.read staged = .ok bytes :=
    Tree.read_eq_ok_iff.mpr ⟨location, leads, copy.file⟩
  rw [Tree.replace, read, ok_bind, leads, ok_bind, same, Tree.overwrite]
  cases reached : tree.locate target with
  | error fault => rfl
  | ok goal =>
    have other : goal ≠ location := fun here => apart (here ▸ reached)
    have entry : copied.entry? goal = tree.entry? goal := by
      rw [copy.put, Tree.entry?_put (Tree.ne_nil_of_not_directory copy.not_directory),
        if_neg other]
    rw [ok_bind, ok_bind, ends, entry, copy.erase_eq]
    rfl

theorem Copied.settle_eq_overwriteFile {target : Path} {filling : ByteArray}
    (copy : Copied staged location bytes tree copied)
    (encodes : Text.Encodes content filling)
    (moves : Tree.replace (tree.put location (.file filling)) staged target.toString =
      tree.overwrite target.toString filling) :
    settle check content staged target.toString copied =
      (overwriteFile check target content : TreeM Unit) tree := by
  have full := copy.filled filling
  have body := copy.filling_eq check target.toString encodes
  by_cases accepts : Accepts check content
  · rw [TreeM.bind_of_ok _ (verify_of_accepts accepts _)] at body
    cases written : tree.overwrite target.toString filling with
    | ok after =>
      rw [written] at moves
      obtain ⟨goal, opens, rfl⟩ := Tree.overwrite_eq_ok_iff.mp written
      rw [overwriteFile_of_opens accepts opens encodes]
      exact TreeM.tryCatch_of_ok _ (body.trans (TreeM.change_of_ok moves))
    | error fault =>
      rw [written] at moves
      rw [overwriteFile_of_error accepts (Tree.overwrite_of_error written .empty)]
      exact full.settle_eq_error (body.trans (TreeM.change_of_error moves))
  · obtain ⟨fault, refused⟩ := verify_of_not_accepts accepts
    rw [TreeM.bind_of_error _ (refused _)] at body
    rw [overwriteFile, TreeM.bind_of_error _ (refused tree)]
    exact full.settle_eq_error body

end Copies

/-- The copy of a number fits beside a target whose directory is there. -/
def CopyFits (tree : Tree) (target : Path) (number : Nat) : Prop :=
  ∀ folder, tree.locate target.parent.toString = .ok folder →
    StagedFits folder target.name number

/-- How the two ways to publish a text go on a tree. If no copy is too long, they come to the same
outcome and the same tree with a text that can be encoded, and with another one publishing through a
copy changes nothing; if every copy is too long, none is made. -/
structure Agree (check : Option Check) (target : Path) (content : String) (tree : Tree) : Prop where
  fits : (∀ number ≤ tree.entries.length, CopyFits tree target number) →
    ¬Text.Halved content →
    (replaceFile check target content : TreeM Unit) tree =
      (overwriteFile check target content : TreeM Unit) tree
  halved : (∀ number ≤ tree.entries.length, CopyFits tree target number) →
    Text.Halved content →
    (replaceFile check target content : TreeM Unit) tree = .error .unencodable tree
  tight : ¬CopyFits tree target 0 →
    (replaceFile check target content : TreeM Unit) tree = .error .nameTooLong tree
  /-- A copy fits if the target has 14 bytes to spare in its name and in its path from the root. -/
  spare : ∀ number < 10 ^ 8, CopyFits tree target number ↔
    ∀ folder, tree.locate target.parent.toString = .ok folder →
      Text.size target.name + 14 ≤ Tree.nameLimit ∧
      Text.size (Path.toString ⟨"/", folder ++ [target.name]⟩) + 14 ≤ Tree.pathLimit

section Modes

variable {target : Path} (formed : tree.WellFormed) (ordinary : Path.Ordinary target.name)
  (there : tree.kind? target.parent.toString = some .directory)
include formed ordinary there

/-- Through a copy that fits, publishing settles that copy. -/
theorem replaceFile_eq_settle (check : Option Check) (content : String)
    (fits : ∀ number ≤ tree.entries.length, CopyFits tree target number) :
    ∃ folder number copied, tree.locate target.parent.toString = .ok folder ∧
      tree.entry? folder = some .directory ∧
      Copied (stagedPath folder target.name number) (folder ++ [stagedName target.name number])
        .empty tree copied ∧
      (replaceFile check target content : TreeM Unit) tree =
        settle check content (stagedPath folder target.name number) target.toString copied := by
  obtain ⟨folder, leads, directory⟩ := Tree.kind?_eq_directory_iff.mp there
  obtain ⟨number, few, free, staged⟩ := Tree.stage_of_fits formed leads directory ordinary
    fun number few => fits number few folder leads
  have put : (FileStore.stage target.parent.toString target.name : TreeM String) tree =
      .ok (stagedPath folder target.name number)
        (tree.put (folder ++ [stagedName target.name number]) (.file .empty)) := by
    simp only [FileStore.stage, staged]
  refine ⟨folder, number, _, leads, directory,
    ⟨Tree.locate_staged formed directory ordinary (fits number few folder leads), free, rfl⟩, ?_⟩
  rw [replaceFile, TreeM.bind_of_ok _ (ensureDirectories_of_directory there),
    TreeM.bind_of_ok _ put]
  rfl

theorem replaceFile_of_fits (spelled : target.Spelled)
    (fits : ∀ number ≤ tree.entries.length, CopyFits tree target number) {bytes : ByteArray}
    (encodes : Text.Encodes content bytes) :
    (replaceFile check target content : TreeM Unit) tree =
      (overwriteFile check target content : TreeM Unit) tree := by
  obtain ⟨folder, number, copied, leads, directory, copy, settled⟩ :=
    replaceFile_eq_settle formed ordinary there check content fits
  have full := copy.filled bytes
  have keeps := full.keepsDirectories
  have goal := Tree.locate_child spelled ordinary leads directory
  have same := (Tree.locate_child spelled ordinary (keeps.locate_eq leads)
    (keeps.directory folder directory)).trans goal.symm
  have apart : tree.locate target.toString ≠
      .ok (folder ++ [stagedName target.name number]) := by
    rw [goal]
    split
    case isFalse => exact nofun
    case isTrue =>
      intro equal
      exact FileStore.ne_stagedName _ _
        (List.singleton_inj.mp (List.append_cancel_left (Except.ok.inj equal)))
  rw [settled]
  exact copy.settle_eq_overwriteFile encodes
    (full.replace_eq_overwrite same (Tree.endsInName_of_ordinary spelled ordinary) apart)

/-- Of a text that cannot be encoded, nothing is left where it was written to a copy. -/
theorem replaceFile_of_halved
    (fits : ∀ number ≤ tree.entries.length, CopyFits tree target number)
    (halved : Text.Halved content) :
    (replaceFile check target content : TreeM Unit) tree = .error .unencodable tree := by
  obtain ⟨folder, number, copied, -, -, copy, settled⟩ :=
    replaceFile_eq_settle formed ordinary there check content fits
  rw [settled]
  exact copy.settle_of_halved halved

theorem replaceFile_of_not_fits (tight : ¬CopyFits tree target 0) :
    (replaceFile check target content : TreeM Unit) tree = .error .nameTooLong tree := by
  obtain ⟨folder, leads, directory⟩ := Tree.kind?_eq_directory_iff.mp there
  have long : ¬StagedFits folder target.name 0 := by
    intro fits
    apply tight
    intro other led
    rw [← Except.ok.inj (leads.symm.trans led)]
    exact fits
  have failed : (FileStore.stage target.parent.toString target.name : TreeM String) tree =
      .error .nameTooLong tree := by
    simp only [FileStore.stage, Tree.stage_of_not_fits formed leads directory ordinary long]
  rw [replaceFile, TreeM.bind_of_ok _ (ensureDirectories_of_directory there),
    TreeM.bind_of_error _ failed]

end Modes

/-- Both ways to publish agree on every tree of files, for every path to an ordinary name in a
directory that is there. -/
theorem modes_agree (formed : tree.WellFormed) (text : String)
    (named : (Path.ofString text).name ∉ ["", ".", ".."])
    (vetted : Path.vet (Path.ofString text).name = .ok ())
    (there : tree.kind? (Path.ofString text).parent.toString = some .directory)
    (check : Option Check) (content : String) :
    Agree check (Path.ofString text) content tree := by
  have spelled := Path.spelled_ofString text
  have ordinary := spelled.ordinary named vetted
  constructor
  case fits =>
    intro fits whole
    obtain ⟨bytes, encodes⟩ := (Text.encodes_or_halved content).resolve_right whole
    exact replaceFile_of_fits formed ordinary there spelled fits encodes
  case halved => exact replaceFile_of_halved formed ordinary there
  case tight => exact replaceFile_of_not_fits formed ordinary there
  case spare =>
    intro number few
    exact forall_congr' fun folder => imp_congr_right fun _ =>
      FileStore.stagedFits_iff_spare folder _ few

theorem sampleTree_wellFormed : sampleTree.WellFormed := by
  have keys : Assoc.keys sampleTree.entries = [["w"], ["w", "old.ts"]] := rfl
  constructor
  case directories =>
    rw [keys]
    intro location listed
    rcases List.mem_pair.mp listed with rfl | rfl <;> rfl
  case names =>
    rw [keys]
    decide

def bareTree : Tree := ⟨[], []⟩

theorem bareTree_wellFormed : bareTree.WellFormed := ⟨nofun, nofun⟩

def nameOfSize (size : Nat) : String := String.ofList (List.replicate size 'c')

theorem eq_of_mem_nameOfSize {size : Nat} {c : Char} (found : c ∈ (nameOfSize size).toList) :
    c = 'c' := by
  rw [nameOfSize, String.toList_ofList] at found
  exact List.eq_of_mem_replicate found

theorem size_nameOfSize (size : Nat) : Text.size (nameOfSize size) = size := by
  have single : ∀ c ∈ List.replicate size 'c', c.utf8Size = 1 := by
    intro c found
    rw [List.eq_of_mem_replicate found]
    decide
  rw [Text.size_eq_utf8ByteSize fun found => absurd (eq_of_mem_nameOfSize found) (by decide),
    nameOfSize, String.utf8ByteSize_ofList, FileStore.utf8Len_eq_length single,
    List.length_replicate]

theorem ordinary_nameOfSize {size : Nat} (long : 2 < size) : Path.Ordinary (nameOfSize size) := by
  apply Path.ordinary_of_length
  · rwa [nameOfSize, String.length_ofList, List.length_replicate]
  · exact fun found => absurd (eq_of_mem_nameOfSize found) (by decide)
  · refine Path.vet_of_absent (fun found => absurd (eq_of_mem_nameOfSize found) (by decide)) ?_
    intro c found
    rw [eq_of_mem_nameOfSize found]
    decide

section Bare

variable {size : Nat} (long : 2 < size)
include long

theorem name_nameOfSize : (Path.ofString (nameOfSize size)).name = nameOfSize size := by
  rw [Path.ofString_of_ordinary (ordinary_nameOfSize long)]
  rfl

theorem ordinary_name_nameOfSize : Path.Ordinary (Path.ofString (nameOfSize size)).name := by
  rw [name_nameOfSize long]
  exact ordinary_nameOfSize long

theorem locate_parent_nameOfSize :
    bareTree.locate (Path.ofString (nameOfSize size)).parent.toString = .ok [] := by
  have parent : Path.parent ⟨"", [nameOfSize size]⟩ = ⟨"", []⟩ := rfl
  rw [Path.ofString_of_ordinary (ordinary_nameOfSize long), parent]
  decide

theorem kind?_parent_nameOfSize :
    bareTree.kind? (Path.ofString (nameOfSize size)).parent.toString = some .directory :=
  Tree.kind?_eq_directory_iff.mpr ⟨[], locate_parent_nameOfSize long, rfl⟩

theorem name_nameOfSize_not_mem : (Path.ofString (nameOfSize size)).name ∉ ["", ".", ".."] := by
  have ordinary := ordinary_name_nameOfSize long
  simp only [List.mem_cons, ordinary.ne_empty, ordinary.ne_dot, ordinary.ne_up, List.not_mem_nil,
    or_self, not_false_eq_true]

/-- A name of 242 bytes or more leaves no room for that of a copy. -/
theorem not_copyFits_nameOfSize (tight : 241 < size) :
    ¬CopyFits bareTree (Path.ofString (nameOfSize size)) 0 := by
  intro fits
  have room := (fits [] (locate_parent_nameOfSize long)).name
  rw [name_nameOfSize long, FileStore.size_stagedName _ (by decide),
    size_nameOfSize, Tree.nameLimit] at room
  omega

theorem overwriteFile_nameOfSize (short : size ≤ 255) {bytes : ByteArray}
    (encodes : Text.Encodes content bytes) :
    (overwriteFile none (Path.ofString (nameOfSize size)) content : TreeM Unit) bareTree =
      .ok () (bareTree.put [nameOfSize size] (.file bytes)) := by
  have spelling : (Path.ofString (nameOfSize size)).toString = nameOfSize size := by
    rw [Path.ofString_of_ordinary (ordinary_nameOfSize long),
      Path.toString_of_names_ne_nil (List.cons_ne_nil _ _), String.intercalate_singleton,
      String.empty_append]
  have fits : Text.size (nameOfSize size) ≤ Tree.nameLimit ∧
      Text.size (nameOfSize size) ≤ Tree.pathLimit := by
    rw [size_nameOfSize, Tree.pathLimit, Tree.nameLimit]
    omega
  have goal := Tree.locate_child (Path.spelled_ofString (nameOfSize size))
    (ordinary_name_nameOfSize long) (locate_parent_nameOfSize long) rfl
  rw [spelling, name_nameOfSize long, if_pos fits, List.nil_append] at goal
  have opens : bareTree.Opens (Path.ofString (nameOfSize size)).toString [nameOfSize size] := by
    rw [spelling]
    exact ⟨goal, nofun⟩
  have accepts : Accepts none content := by
    intro applied impossible
    cases impossible
  exact overwriteFile_of_opens accepts opens encodes

end Bare

def sampleHalf : String := Text.ofPoints [0xD800]

theorem halved_sampleHalf : Text.Halved sampleHalf := by
  rw [Text.Halved, sampleHalf, Text.points_ofPoints (by decide)]
  exact ⟨0xD800, List.mem_singleton_self _, by decide⟩

theorem sample_modes_agree :
    (replaceFile (some wellBraced) (Path.ofString "old.ts") "\x7b\x7d" : TreeM Unit) sampleTree =
        (overwriteFile (some wellBraced) (Path.ofString "old.ts") "\x7b\x7d" : TreeM Unit)
          sampleTree ∧
      (replaceFile none (Path.ofString "old.ts") sampleHalf : TreeM Unit) sampleTree =
        .error .unencodable sampleTree ∧
      (replaceFile none (Path.ofString (nameOfSize 242)) "x" : TreeM Unit) bareTree =
        .error .nameTooLong bareTree := by
  have long : 2 < 242 := by decide
  have agree (check : Option Check) (content : String) :=
    modes_agree sampleTree_wellFormed "old.ts" (by decide +kernel) (by decide +kernel)
      (by decide +kernel) check content
  have tight := modes_agree bareTree_wellFormed (nameOfSize 242) (name_nameOfSize_not_mem long)
    (ordinary_name_nameOfSize long).vetted (kind?_parent_nameOfSize long) none "x"
  have beside : sampleTree.locate (Path.ofString "old.ts").parent.toString = .ok ["w"] := by
    decide +kernel
  have roomy (number : Nat) (few : number ≤ sampleTree.entries.length) :
      CopyFits sampleTree (Path.ofString "old.ts") number := by
    rw [(agree none "").spare number (Nat.lt_of_le_of_lt few (by decide))]
    intro folder leads
    rw [← Except.ok.inj (beside.symm.trans leads)]
    decide +kernel
  have whole : ¬Text.Halved "\x7b\x7d" := (Text.encodes_toUTF8 (by decide)).not_halved
  exact ⟨(agree (some wellBraced) "\x7b\x7d").fits roomy whole,
    (agree none sampleHalf).halved roomy halved_sampleHalf,
    tight.tight (not_copyFits_nameOfSize long (by decide))⟩

/-- A file of a name with 242 bytes can be written straight, but not through a copy. A text that
cannot be encoded empties a file that is written straight, and leaves it as it was if there is a
copy. -/
theorem modes_disagree :
    (bareTree.WellFormed ∧
      (Path.ofString (nameOfSize 242)).name ∉ ["", ".", ".."] ∧
      bareTree.kind? (Path.ofString (nameOfSize 242)).parent.toString = some .directory ∧
      (overwriteFile none (Path.ofString (nameOfSize 242)) "x" : TreeM Unit) bareTree =
        .ok () (bareTree.put [nameOfSize 242] (.file "x".toUTF8)) ∧
      (replaceFile none (Path.ofString (nameOfSize 242)) "x" : TreeM Unit) bareTree =
        .error .nameTooLong bareTree) ∧
    sampleTree.WellFormed ∧
      (Path.ofString "old.ts").name ∉ ["", ".", ".."] ∧
      sampleTree.kind? (Path.ofString "old.ts").parent.toString = some .directory ∧
      Tree.file? (TreeM.left
        ((overwriteFile none (Path.ofString "old.ts") sampleHalf : TreeM Unit) sampleTree))
          ["w", "old.ts"] = some .empty ∧
      Tree.file? (TreeM.left
        ((replaceFile none (Path.ofString "old.ts") sampleHalf : TreeM Unit) sampleTree))
          ["w", "old.ts"] = some "old".toUTF8 := by
  have long : 2 < 242 := by decide
  have there := kind?_parent_nameOfSize long
  have encodes : Text.Encodes "x" "x".toUTF8 := Text.encodes_toUTF8 (by decide)
  refine ⟨⟨bareTree_wellFormed, name_nameOfSize_not_mem long, there,
    overwriteFile_nameOfSize long (by decide) encodes,
    replaceFile_of_not_fits bareTree_wellFormed (ordinary_name_nameOfSize long) there
      (not_copyFits_nameOfSize long (by decide))⟩, sampleTree_wellFormed, ?_⟩
  decide +kernel

end Publication

end NodeSmith
