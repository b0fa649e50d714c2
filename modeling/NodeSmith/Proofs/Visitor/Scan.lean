import NodeSmith.Proofs.Dispatch
import NodeSmith.Proofs.Layout.Emission
import NodeSmith.Visitor

set_option autoImplicit false

namespace NodeSmith.Visitor

open Layout (Code Command Cursor Emission Style Writing)

variable (style : Style) (rebuilt : Definition → Writing)

def opening : List Command :=
  [.line "function accept(node: Node, cbNode: Visitor, state?: any): Node \x7b", .indent,
    .line "switch (node.kind) \x7b", .indent]

def closing : List Command := [.dedent, .line "\x7d", .dedent, .line "\x7d"]

def handedBack : Writing := .nested style (.ofCode style [.line "return node;"])

/-- How far a pass over the definitions has come. -/
structure Scan where
  /-- Whether labels wait for the body they share. -/
  pending : Bool
  written : Emission

namespace Scan

/-- What is written once no label waits. -/
def flushed (scan : Scan) : Emission :=
  if scan.pending then scan.written.andThen (handedBack style) else scan.written

/-- Passes a definition. The label of an updatable one comes after the body that others wait
for. -/
def step (scan : Scan) (definition : Definition) : Scan :=
  let label := Writing.ofCode style [label definition]
  if !definition.creatable then scan
  else if definition.updatable then
    ⟨false, ((scan.flushed style).andThen label).andThen
      (Writing.nested style (rebuilt definition))⟩
  else ⟨true, scan.written.andThen label⟩

end Scan

/-- The dispatch over definitions in one pass. What rebuilds a node is given. -/
def scanned (definitions : List Definition) : Writing := fun cursor =>
  let opened : Scan := ⟨false, cursor.emitAll style opening⟩
  ((definitions.foldl (Scan.step style rebuilt) opened).flushed style).andThen
    (Writing.ofCommands style closing)

/-- Writes a group: its labels, then the body they share. -/
def writeGroup (group : DispatchGroup) : Writing :=
  (Writing.ofCode style (group.members.map label)).followedBy
    (if group.updatable then
      Writing.nested style ((group.members.head?.map rebuilt).getD Emission.start)
    else handedBack style)

def writeGroups : List DispatchGroup → Writing
  | [] => Emission.start
  | group :: rest => (writeGroup style rebuilt group).followedBy (writeGroups rest)

def grouped (definitions : List Definition) : Writing :=
  (Writing.ofCommands style opening).followedBy
    ((writeGroups style rebuilt (DispatchGroup.ofDefinitions definitions)).followedBy
      (Writing.ofCommands style closing))

/-- What is left to write where labels wait: they go with a first group that is handed back, and
otherwise need a body of their own. -/
def writeWaited : List DispatchGroup → Writing
  | ⟨false, run⟩ :: more => writeGroups style rebuilt (⟨false, run⟩ :: more)
  | groups => (handedBack style).followedBy (writeGroups style rebuilt groups)

def remaining (pending : Bool) (groups : List DispatchGroup) : Writing :=
  if pending then writeWaited style rebuilt groups else writeGroups style rebuilt groups

theorem writeGroup_cons (definition : Definition) (run : List Definition) :
    writeGroup style rebuilt ⟨false, definition :: run⟩ =
      (Writing.ofCode style [label definition]).followedBy
        (writeGroup style rebuilt ⟨false, run⟩) := by
  simp only [writeGroup, Bool.false_eq_true, ↓reduceIte]
  rw [← Writing.followedBy_assoc, ← Writing.ofCode_append, List.map_cons, List.singleton_append]

/-- An updatable definition ends the wait, and has its own label and body after that. -/
theorem andThen_remaining_updatable (pending : Bool) (written : Emission)
    (definition : Definition) (groups : List DispatchGroup) :
    written.andThen (remaining style rebuilt pending (⟨true, [definition]⟩ :: groups)) =
      (((Scan.flushed style ⟨pending, written⟩).andThen
        (Writing.ofCode style [label definition])).andThen
          (Writing.nested style (rebuilt definition))).andThen
            (writeGroups style rebuilt groups) := by
  have group : writeGroups style rebuilt (⟨true, [definition]⟩ :: groups) =
      (Writing.ofCode style [label definition]).followedBy
        ((Writing.nested style (rebuilt definition)).followedBy
          (writeGroups style rebuilt groups)) := Writing.followedBy_assoc _ _ _
  cases pending with
  | false =>
    simp only [remaining, Bool.false_eq_true, ↓reduceIte, Scan.flushed, group,
      Writing.andThen_followedBy]
  | true =>
    simp only [remaining, ↓reduceIte, Scan.flushed, writeWaited, group,
      Writing.andThen_followedBy]

/-- A definition that is handed back goes on with the wait, whether or not it starts it. -/
theorem remaining_handedBack (pending : Bool) (definition : Definition) (run : List Definition)
    (groups : List DispatchGroup) :
    remaining style rebuilt pending (⟨false, definition :: run⟩ :: groups) =
      (Writing.ofCode style [label definition]).followedBy
        (writeGroups style rebuilt (⟨false, run⟩ :: groups)) := by
  have group : writeGroups style rebuilt (⟨false, definition :: run⟩ :: groups) =
      (Writing.ofCode style [label definition]).followedBy
        (writeGroups style rebuilt (⟨false, run⟩ :: groups)) := by
    simp only [writeGroups, writeGroup_cons, Writing.followedBy_assoc]
  cases pending with
  | false => exact group
  | true => exact group

/-- Where no further label follows, labels that wait have a body of their own. -/
theorem remaining_waiting {groups : List DispatchGroup}
    (apart : ∀ run more, groups ≠ ⟨false, run⟩ :: more) :
    remaining style rebuilt true groups = writeGroups style rebuilt (⟨false, []⟩ :: groups) := by
  have alone : writeGroup style rebuilt ⟨false, []⟩ = handedBack style := by
    rw [writeGroup, List.map_nil, Writing.ofCode_nil, Writing.start_followedBy]
    rfl
  rw [writeGroups, alone]
  match groups, apart with
  | [], _ => rfl
  | ⟨true, _⟩ :: _, _ => rfl
  | ⟨false, run⟩ :: more, apart => exact absurd rfl (apart run more)

/-- From wherever a pass has come to, it writes what is left to write. -/
theorem flushed_foldl_step (definitions : List Definition) (pending : Bool) (written : Emission) :
    (definitions.foldl (Scan.step style rebuilt) ⟨pending, written⟩).flushed style =
      written.andThen
        (remaining style rebuilt pending (DispatchGroup.ofDefinitions definitions)) := by
  -- The wait is what the rest of the scan knows of the part before.
  fun_induction DispatchGroup.ofDefinitions definitions generalizing pending written with
  | case1 =>
    cases pending with
    | false => exact (Emission.andThen_start written).symm
    | true =>
      change written.andThen (handedBack style) =
        written.andThen ((handedBack style).followedBy Emission.start)
      rw [Writing.followedBy_start]
  | case2 definition rest groups skipped ih =>
    rw [List.foldl_cons, Scan.step, if_pos skipped]
    exact ih pending written
  | case3 definition rest groups kept updates ih =>
    rw [List.foldl_cons, Scan.step, if_neg kept, if_pos updates, ih, andThen_remaining_updatable]
    rfl
  | case4 definition rest groups kept fixed run more made ih =>
    have joined : DispatchGroup.ofDefinitions rest = ⟨false, run⟩ :: more := made
    rw [List.foldl_cons, Scan.step, if_neg kept, if_neg fixed, ih, joined, remaining_handedBack,
      Writing.andThen_followedBy]
    rfl
  | case5 definition rest groups kept fixed apart ih =>
    rw [List.foldl_cons, Scan.step, if_neg kept, if_neg fixed, ih, remaining_handedBack,
      Writing.andThen_followedBy, ← remaining_waiting style rebuilt apart]

/-- The dispatch that is written by groups is what one pass writes. -/
theorem grouped_eq_scanned (definitions : List Definition) :
    grouped style rebuilt definitions = scanned style rebuilt definitions := by
  funext cursor
  rw [scanned, flushed_foldl_step]
  exact (Emission.andThen_assoc _ _ _).symm

def rebuilding (settings : Settings) (tables : Tables) (definition : Definition) : Writing :=
  Writing.ofCode style (rebuild settings tables definition)

theorem ofCode_cases (settings : Settings) (tables : Tables) (group : DispatchGroup) :
    Writing.ofCode style (cases settings tables group) =
      writeGroup style (rebuilding style settings tables) group := by
  rw [cases, Writing.ofCode_append, Writing.ofCode_nested, writeGroup, body]
  cases group.updatable with
  | false => rfl
  | true =>
    cases group.members.head? with
    | none =>
      simp only [↓reduceIte, Option.map_none, Option.getD_none]
      rw [Writing.ofCode_nil]
    | some definition => rfl

theorem ofCode_flatMap_cases (settings : Settings) (tables : Tables)
    (groups : List DispatchGroup) :
    Writing.ofCode style (groups.flatMap (cases settings tables)) =
      writeGroups style (rebuilding style settings tables) groups := by
  induction groups with
  | nil => exact Writing.ofCode_nil style
  | cons group rest ih =>
    rw [List.flatMap_cons, Writing.ofCode_append, ofCode_cases, ih, writeGroups]

theorem commandsOf_accept (settings : Settings) (catalog : Catalog) :
    Code.commandsOf (accept settings catalog) =
      opening ++ (Code.commandsOf ((DispatchGroup.ofDefinitions catalog.definitions).flatMap
        (cases settings catalog.tables)) ++ closing) := by
  simp only [accept, opening, closing, Code.commandsOf_cons, Code.commandsOf_nil, Code.commands,
    List.append_nil, List.cons_append, List.nil_append, List.append_assoc]

theorem ofCode_accept (settings : Settings) (catalog : Catalog) :
    Writing.ofCode style (accept settings catalog) =
      grouped style (rebuilding style settings catalog.tables) catalog.definitions := by
  rw [Writing.ofCode, commandsOf_accept, Writing.ofCommands_append, Writing.ofCommands_append,
    grouped, ← ofCode_flatMap_cases]
  rfl

/-- From wherever it is laid out, and in whatever style, the dispatch is what one pass writes, be
it that a line fails on the way. That does not depend on how nodes are rebuilt. -/
theorem accept_eq_scanned (settings : Settings) (catalog : Catalog) (cursor : Cursor) :
    cursor.emitAll style (Code.commandsOf (accept settings catalog)) =
        scanned style (rebuilding style settings catalog.tables) catalog.definitions cursor ∧
      ∀ rebuilt, grouped style rebuilt catalog.definitions cursor =
        scanned style rebuilt catalog.definitions cursor := by
  refine ⟨?_, fun rebuilt => congrFun (grouped_eq_scanned style rebuilt _) cursor⟩
  rw [← grouped_eq_scanned, ← ofCode_accept]
  rfl

end NodeSmith.Visitor
