import Mathlib.Data.List.Forall2
import NodeSmith.Layout.Code
import NodeSmith.Proofs.Layout.Indents
import NodeSmith.Proofs.Text.Lines

set_option autoImplicit false

namespace NodeSmith.Layout

/-- A line of a laid-out text: nothing, or a text at a depth. -/
inductive Line
  | blank
  | filled (depth : Nat) (content : String)
  deriving DecidableEq, Repr

namespace Line

def render (unit : String) : Line → String
  | blank => ""
  | filled depth content => multiple unit depth ++ content

/-- What a line after another one is laid out as. -/
def tokens : Line → List Token
  | blank => [.lineBreak]
  | filled depth content =>
    .lineBreak :: (if depth = 0 then [] else [.indentation depth]) ++ [.stretch content]

def ofStretch (depth : Nat) (content : String) : Line :=
  if content = "" then blank else filled depth content

/-- The lines of a text, which may have breaks of its own. -/
def ofText (depth : Nat) (content : String) : List Line :=
  (Text.lines content).map (ofStretch depth)

theorem ofStretch_visible {content : String} (depth : Nat) (visible : content ≠ "") :
    ofStretch depth content = filled depth content := by
  rw [ofStretch, if_neg visible]

theorem ofText_of_unbroken {content : String} (depth : Nat) (unbroken : Text.Unbroken content)
    (visible : content ≠ "") : ofText depth content = [filled depth content] := by
  rw [ofText, Text.lines_of_unbroken unbroken, List.map_singleton, ofStretch_visible depth visible]

theorem join_tokens (unit newline : String) (line : Line) :
    String.join (line.tokens.map (Token.text unit newline)) = newline ++ line.render unit := by
  have none : multiple unit 0 = "" := rfl
  cases line with
  | blank => simp only [tokens, List.map_cons, List.map_nil, Token.text, String.join_cons,
      String.join_nil, render]
  | filled depth content =>
    by_cases flush : depth = 0
    · simp only [tokens, flush, ↓reduceIte, List.cons_append, List.nil_append, List.map_cons,
        List.map_nil, Token.text, String.join_cons, String.join_nil, String.append_empty, render,
        none, String.empty_append]
    · simp only [tokens, flush, ↓reduceIte, List.cons_append, List.nil_append, List.map_cons,
        List.map_nil, Token.text, String.join_cons, String.join_nil, String.append_empty, render]

end Line

def render (unit newline : String) (lines : List Line) : String :=
  newline.intercalate (lines.map (Line.render unit))

theorem text_flatMap_tokens (unit newline : String) (lines : List Line) :
    text unit newline (lines.flatMap Line.tokens) =
      String.join (lines.map fun line => newline ++ line.render unit) := by
  rw [text_eq_join]
  induction lines with
  | nil => rfl
  | cons line rest ih =>
    rw [List.flatMap_cons, List.map_append, String.join_append, ih, Line.join_tokens,
      List.map_cons, String.join_cons]

theorem intercalate_cons_eq_join (separator first : String) (rest : List String) :
    separator.intercalate (first :: rest) =
      first ++ String.join (rest.map fun text => separator ++ text) := by
  induction rest generalizing first with
  | nil => rw [String.intercalate_singleton, List.map_nil, String.join_nil, String.append_empty]
  | cons next rest ih =>
    rw [String.intercalate_cons_cons, ih, List.map_cons, String.join_cons, String.append_assoc,
      String.append_assoc]

theorem render_cons (unit newline : String) (line : Line) (rest : List Line) :
    render unit newline (line :: rest) =
      line.render unit ++ String.join (rest.map fun line => newline ++ line.render unit) := by
  rw [render, List.map_cons, intercalate_cons_eq_join, List.map_map]
  rfl

namespace Cursor

/-- The cursor stands where a line was ended. -/
structure Between (depth : Nat) (opened : Bool) (cursor : Cursor) : Prop where
  depth_eq : cursor.depth = depth
  suspended_eq : cursor.suspended = 0
  breakDue_eq : cursor.breakDue = true
  /-- Whether the line that was ended has text. -/
  lineOpen_eq : cursor.lineOpen = opened

variable {cursor : Cursor} {depth : Nat} {opened : Bool}

theorem Between.place_eq (between : cursor.Between depth opened) (content : String) :
    cursor.place content =
      ({ cursor with breakDue := false, lineOpen := !content.isEmpty, started := true },
        (Line.ofStretch depth content).tokens) := by
  have deep : cursor.depth = depth := between.depth_eq
  simp only [place, settle, between.breakDue_eq, ↓reduceIte, breakLine]
  by_cases empty : content = ""
  · rw [empty]
    rfl
  · have visible : content.isEmpty = false := by
      rw [String.isEmpty_eq_false_iff]
      exact empty
    rw [Line.ofStretch_visible depth empty]
    simp only [visible, Bool.false_eq_true, ↓reduceIte, Bool.not_false, margin,
      between.suspended_eq, deep, BEq.rfl, Bool.and_self, Bool.true_and, Line.tokens]
    by_cases flush : depth = 0
    · simp only [flush, bne_self_eq_false, Bool.false_eq_true, ↓reduceIte, List.append_nil,
        List.cons_append, List.nil_append]
    · simp only [bne_iff_ne.mpr flush, flush, ↓reduceIte, List.cons_append, List.nil_append]

/-- Whether the last of some stretches has text. -/
def endsOpen (opened : Bool) : List String → Bool
  | [] => opened
  | content :: rest => endsOpen (!content.isEmpty) rest

theorem endsOpen_of_visible {contents : List String}
    (visible : ∀ content ∈ contents, content ≠ "") : endsOpen true contents = true := by
  induction contents with
  | nil => rfl
  | cons content rest ih =>
    have shown : content.isEmpty = false := by
      rw [String.isEmpty_eq_false_iff]
      exact visible content List.mem_cons_self
    rw [endsOpen, shown]
    exact ih fun other member => visible other (List.mem_cons_of_mem _ member)

/-- Every stretch is a line, and only the last decides how the work ends. -/
theorem placeLines_spec (contents : List String)
    (between : Between depth opened { cursor with breakDue := true }) :
    (cursor.placeLines contents).2 = (contents.map (Line.ofStretch depth)).flatMap Line.tokens ∧
      Between depth (endsOpen opened contents)
        { (cursor.placeLines contents).1 with breakDue := true } := by
  induction contents generalizing cursor opened with
  | nil => exact ⟨rfl, between⟩
  | cons content rest ih =>
    have placed := between.place_eq content
    have next : Between depth (!content.isEmpty)
        { (place { cursor with breakDue := true } content).1 with breakDue := true } := by
      rw [placed]
      exact ⟨between.depth_eq, between.suspended_eq, rfl, rfl⟩
    obtain ⟨tokens, after⟩ := ih next
    refine ⟨?_, after⟩
    change (place { cursor with breakDue := true } content).2 ++
      (placeLines (place { cursor with breakDue := true } content).1 rest).2 = _
    rw [tokens, placed, List.map_cons, List.flatMap_cons]

/-- A text with its line ended is the lines of the text. -/
theorem Between.endLine_spec (between : cursor.Between depth opened) {content : String}
    (visible : content ≠ "") :
    (cursor.endLine content).2 = (Line.ofText depth content).flatMap Line.tokens ∧
      Between depth (endsOpen opened (Text.lines content)) (cursor.endLine content).1 := by
  have shown : content.isEmpty = false := by
    rw [String.isEmpty_eq_false_iff]
    exact visible
  have due : ({ cursor with breakDue := true } : Cursor) = cursor := by
    rw [← between.breakDue_eq]
  have written : cursor.write content = cursor.placeLines (Text.lines content) := by
    rw [write, shown]
    cases Text.lines content with
    | nil => rfl
    | cons first rest => simp only [Bool.false_eq_true, ↓reduceIte, placeLines, due]
  have ready : Between depth opened { cursor with breakDue := true } := by
    rw [due]
    exact between
  simp only [endLine, shown, Bool.false_eq_true, ↓reduceIte, written]
  exact placeLines_spec (Text.lines content) ready

end Cursor

/-- From between lines at a depth, code comes to lines, and the cursor is between lines at that
depth afterwards. The flags say whether the line before and the last line have text. -/
def Lays (depth : Nat) (before : Bool) (codes : List Code) (lines : List Line) (after : Bool) :
    Prop :=
  ∀ cursor : Cursor, cursor.Between depth before →
    (cursor.run (Code.commandsOf codes)).2 = lines.flatMap Line.tokens ∧
      (cursor.run (Code.commandsOf codes)).1.Between depth after

/-- Pieces of code come to blocks of lines, one by one, whatever the line before. -/
abbrev LaysEach (depth : Nat) : List (List Code) → List (List Line) → Prop :=
  List.Forall₂ fun piece block => ∀ before, Lays depth before piece block true

namespace Lays

variable {depth : Nat} {before middle after : Bool} {first second : List Code}
  {front back : List Line}

theorem nil : Lays depth before [] [] before := by
  intro cursor between
  exact ⟨rfl, between⟩

theorem append (laid : Lays depth before first front middle)
    (further : Lays depth middle second back after) :
    Lays depth before (first ++ second) (front ++ back) after := by
  intro cursor between
  obtain ⟨tokens, reached⟩ := laid cursor between
  obtain ⟨more, ended⟩ := further _ reached
  rw [Code.commandsOf_append, Cursor.run_append, tokens, more, List.flatMap_append]
  exact ⟨rfl, ended⟩

theorem cons {code : Code} (laid : Lays depth before [code] front middle)
    (further : Lays depth middle second back after) :
    Lays depth before (code :: second) (front ++ back) after := laid.append further

theorem nested {body : List Code} (laid : Lays (depth + 1) before body front after) :
    Lays depth before [.nested body] front after := by
  intro cursor between
  have inner : Cursor.Between (depth + 1) before { cursor with depth := cursor.depth + 1 } :=
    ⟨by rw [between.depth_eq], between.suspended_eq, between.breakDue_eq, between.lineOpen_eq⟩
  obtain ⟨tokens, ended⟩ := laid _ inner
  have commands : Code.commandsOf [.nested body] =
      [.indent] ++ Code.commandsOf body ++ [.dedent] := by
    rw [Code.commandsOf_cons, Code.commands, Code.commandsOf_nil, List.append_nil]
    rfl
  have entered : cursor.run [.indent] = ({ cursor with depth := cursor.depth + 1 }, []) := rfl
  have left (inside : Cursor) :
      inside.run [.dedent] = ({ inside with depth := inside.depth - 1 }, []) := rfl
  rw [commands, Cursor.run_append, Cursor.run_append, entered, left, tokens, List.nil_append,
    List.append_nil]
  refine ⟨rfl, ?_, ended.suspended_eq, ended.breakDue_eq, ended.lineOpen_eq⟩
  exact Nat.sub_eq_of_eq_add ended.depth_eq

theorem blank : Lays depth true [.blank] [.blank] false := by
  intro cursor between
  rw [Code.commandsOf_cons, Code.commandsOf_nil, List.append_nil, Code.commands, Cursor.run_cons,
    Cursor.run_nil]
  have requested : cursor.step (.line "") =
      ({ cursor with breakDue := true, lineOpen := false, started := true }, [.lineBreak]) := by
    have none : "".isEmpty = true := rfl
    change cursor.endLine "" = _
    simp only [Cursor.endLine, none, ↓reduceIte, between.breakDue_eq, between.lineOpen_eq,
      Bool.and_self, Cursor.breakLine]
  rw [requested]
  exact ⟨rfl, between.depth_eq, between.suspended_eq, rfl, rfl⟩

theorem text {content : String} (visible : content ≠ "") :
    Lays depth before [.line content] (Line.ofText depth content)
      (Cursor.endsOpen before (Text.lines content)) := by
  intro cursor between
  rw [Code.commandsOf_cons, Code.commandsOf_nil, List.append_nil, Code.commands, Cursor.run_cons,
    Cursor.run_nil, List.append_nil]
  exact between.endLine_spec visible

theorem line {content : String} (unbroken : Text.Unbroken content) (visible : content ≠ "") :
    Lays depth before [.line content] [.filled depth content] true := by
  have laid : Lays depth before _ _ _ := text visible
  have shown : content.isEmpty = false := by
    rw [String.isEmpty_eq_false_iff]
    exact visible
  rw [Line.ofText_of_unbroken depth unbroken visible, Text.lines_of_unbroken unbroken] at laid
  simpa only [Cursor.endsOpen, shown, Bool.not_false] using laid

/-- A block: a line that opens it, the code in it, and the brace that closes it. -/
theorem block {header : String} {body : List Code} {lines : List Line}
    (unbroken : Text.Unbroken header) (visible : header ≠ "")
    (laid : Lays (depth + 1) true body lines middle) :
    Lays depth before [.line header, .nested body, .line "\x7d"]
      (.filled depth header :: lines ++ [.filled depth "\x7d"]) true := by
  have opened : Lays depth before [.line header] [.filled depth header] true :=
    line unbroken visible
  have closed : Lays depth middle [.line "\x7d"] [.filled depth "\x7d"] true :=
    line (by decide) (by decide)
  exact (opened.append laid.nested).append closed

theorem lines {α : Type} {items : List α} {content : α → String}
    (unbroken : ∀ item ∈ items, Text.Unbroken (content item))
    (visible : ∀ item ∈ items, content item ≠ "") :
    Lays depth true (items.map fun item => .line (content item))
      (items.map fun item => .filled depth (content item)) true := by
  induction items with
  | nil => exact nil
  | cons item rest ih =>
    rw [List.map_cons, List.map_cons]
    exact cons (line (unbroken item List.mem_cons_self) (visible item List.mem_cons_self))
      (ih (fun other member => unbroken other (List.mem_cons_of_mem _ member))
        fun other member => visible other (List.mem_cons_of_mem _ member))

/-- Pieces of code one after another, each of which ends in a line with text. -/
theorem flatMap {α : Type} {items : List α} {code : α → List Code} {made : α → List Line}
    (each : ∀ item ∈ items, Lays depth true (code item) (made item) true) :
    Lays depth true (items.flatMap code) (items.flatMap made) true := by
  induction items with
  | nil => exact nil
  | cons item rest ih =>
    rw [List.flatMap_cons, List.flatMap_cons]
    exact append (each item List.mem_cons_self)
      (ih fun other member => each other (List.mem_cons_of_mem _ member))

/-- Pieces of code, at least one, with blank lines between them. Each ends in a line with text, and
so do all of them together, whatever the line before. -/
theorem separated_cons {piece : List Code} {block : List Line} {pieces : List (List Code)}
    {blocks : List (List Line)} (first : ∀ before, Lays depth before piece block true)
    (each : LaysEach depth pieces blocks) :
    Lays depth before (Code.separated (piece :: pieces))
      ([Line.blank].intercalate (block :: blocks)) true := by
  change Lays depth before ([Code.blank].intercalate (piece :: pieces)) _ true
  induction each generalizing before piece block with
  | nil =>
    rw [List.intercalate_singleton, List.intercalate_singleton]
    exact first before
  | cons next _ ih =>
    rw [List.intercalate_cons_cons, List.intercalate_cons_cons]
    exact append (append (first before) blank) (ih next)

theorem separated {pieces : List (List Code)} {blocks : List (List Line)}
    (each : LaysEach depth pieces blocks) :
    Lays depth true (Code.separated pieces) ([Line.blank].intercalate blocks) true := by
  cases each with
  | nil => exact nil
  | cons first rest => exact separated_cons first rest

end Lays

/-- The cursor at the start of a text lays out a text as lines, of which the first stands alone. -/
theorem Cursor.endLine_start {content first : String} {rest : List String}
    (split : Text.lines content = first :: rest) (visible : first ≠ "") :
    (({} : Cursor).endLine content).2 =
        .stretch first :: (rest.map (Line.ofStretch 0)).flatMap Line.tokens ∧
      Between 0 (endsOpen true rest) (({} : Cursor).endLine content).1 := by
  have shown : first.isEmpty = false := by
    rw [String.isEmpty_eq_false_iff]
    exact visible
  have some := Text.isEmpty_of_lines split visible
  have placed : ({} : Cursor).place first =
      ({ lineOpen := true, started := true }, [.stretch first]) := by
    simp only [place, settle, shown, Bool.false_eq_true, ↓reduceIte, margin, Bool.not_false,
      Bool.and_false, Bool.false_and, List.append_nil, List.nil_append]
  obtain ⟨tokens, ended⟩ : ((⟨0, 0, false, true, true⟩ : Cursor).placeLines rest).2 = _ ∧ _ :=
    placeLines_spec rest ⟨rfl, rfl, rfl, rfl⟩
  simp only [endLine, some, Bool.false_eq_true, ↓reduceIte, write, split, placed, tokens]
  exact ⟨rfl, ended⟩

/-- A text whose first line has no margin. -/
theorem text_eq_render (unit newline first : String) (lines : List Line) :
    text unit newline (.stretch first :: lines.flatMap Line.tokens) =
      render unit newline (.filled 0 first :: lines) := by
  have none : multiple unit 0 = "" := rfl
  have rest := text_flatMap_tokens unit newline lines
  rw [text_eq_join] at rest ⊢
  rw [List.map_cons, String.join_cons, rest, render_cons, Line.render, none, String.empty_append]
  rfl

/-- A whole text: lines with text, and the code after them. -/
theorem text_run (unit newline : String) {contents : List String} {codes : List Code}
    {lines : List Line} {after : Bool} (some : contents ≠ [])
    (unbroken : ∀ content ∈ contents, Text.Unbroken content)
    (visible : ∀ content ∈ contents, content ≠ "") (laid : Lays 0 true codes lines after) :
    text unit newline
        (({} : Cursor).run (Code.commandsOf (.line ("\n".intercalate contents) :: codes))).2 =
      render unit newline (contents.map (.filled 0) ++ lines) := by
  have split := Text.lines_intercalate unbroken some
  cases contents with
  | nil => exact absurd rfl some
  | cons first rest =>
    have later : ∀ content ∈ rest, content ≠ "" := fun content member =>
      visible content (List.mem_cons_of_mem _ member)
    have filled : rest.map (Line.ofStretch 0) = rest.map (.filled 0) :=
      List.map_congr_left fun content member => Line.ofStretch_visible 0 (later content member)
    obtain ⟨tokens, ended⟩ := Cursor.endLine_start split (visible first List.mem_cons_self)
    rw [Cursor.endsOpen_of_visible later] at ended
    obtain ⟨more, -⟩ := laid _ ended
    have step (content : String) :
        ({} : Cursor).step (.line content) = ({} : Cursor).endLine content := rfl
    rw [Code.commandsOf_cons, Code.commands, List.singleton_append, Cursor.run_cons, step, tokens,
      more, filled, List.cons_append, ← List.flatMap_append, text_eq_render, List.map_cons,
      List.cons_append]

end NodeSmith.Layout
