import NodeSmith.Json.Value
import NodeSmith.Text.Blank

set_option autoImplicit false

namespace NodeSmith.Union

def sorted (names : List String) : List String := names.mergeSort fun a b => decide (a ≤ b)

def segments (text : String) : List String := (text.toList.splitOn '|').map String.ofList

/-- The member names in order; white space is part of them. -/
def members (text : String) : List String := sorted (segments text)

/-- The key of a union: its member names without white space, in order. -/
def key (text : String) : String := "|".intercalate (members (Text.removeBlanks text))

/-- What a scan for separators has just passed: a bar, or white space that a bar may still claim. -/
inductive Passed
  | bar
  | blanks (held : List Char)
  deriving DecidableEq, Repr

/-- Puts a separator in the place of every bar and the white space on both sides of it. -/
def separateFrom (separator : List Char) : Passed → List Char → List Char
  | .bar, [] => []
  | .blanks held, [] => held
  | .bar, c :: rest =>
    if c = '|' then separator ++ separateFrom separator .bar rest
    else if Text.isBlank c then separateFrom separator .bar rest
    else c :: separateFrom separator (.blanks []) rest
  | .blanks held, c :: rest =>
    if c = '|' then separator ++ separateFrom separator .bar rest
    else if Text.isBlank c then separateFrom separator (.blanks (held ++ [c])) rest
    else held ++ c :: separateFrom separator (.blanks []) rest

/-- The text with a separator for every bar and the white space around it. -/
def separate (separator text : String) : String :=
  String.ofList (separateFrom separator.toList (.blanks []) text.toList)

def spaced (text : String) : String := separate " | " text

def identifier (text : String) : String := separate "Or" text

/-- The spaced form of a union with its members tight and in order. Text without a visible
character is no type. -/
def canonical (text : String) : Option String :=
  if key text = "" then none else some (spaced (key text))

/-- Applies a rule for text to a value; a value that is not present stays absent. -/
def ofValue {α : Type} (rule : String → Option α) : Json → Except Fault (Option α)
  | .text value => .ok (if value = "" then none else rule value)
  | value => if value.present then .error .notText else .ok none

def keyOf (value : Json) : Except Fault (Option String) :=
  ofValue (fun text => some (key text)) value

def spacedOf (value : Json) : Except Fault (Option String) :=
  ofValue (fun text => some (spaced text)) value

def canonicalOf (value : Json) : Except Fault (Option String) := ofValue canonical value

def identifierOf (value : Json) : Except Fault (Option String) :=
  ofValue (fun text => some (identifier text)) value

/-- The member names of a value; none if it is not present. -/
def membersOf : Json → Except Fault (List String)
  | .text value => .ok (if value = "" then [] else members value)
  | value => if value.present then .error .notSplittable else .ok []

/-- Whether a value has a bar: in its text, or as an item or a field name of its own. -/
def hasBar (value : Json) : Except Fault Bool :=
  if value.present then
    match value with
    | .text written => .ok (written.toList.contains '|')
    | .list items => .ok (items.any fun item => item == .text "|")
    | .record fields => .ok ((Assoc.keys fields).contains "|")
    | _ => .error .notIterable
  else .ok false

/-- The text of a value without its white space. Here an absent value is not text either. -/
def tightOf (value : Json) : Except Fault String := value.asText.map Text.removeBlanks

/-- The key under which a value in canonical form is registered. -/
def keyOfCanonical : Json → Option String
  | .text value => if value = "" then none else some (key value)
  | _ => none

@[simp] theorem ofValue_text {α : Type} (rule : String → Option α) (value : String) :
    ofValue rule (.text value) = .ok (if value = "" then none else rule value) := rfl

theorem ofValue_absent {α : Type} (rule : String → Option α) (value : Json)
    (absent : value.present = false) : ofValue rule value = .ok none := by
  cases value with
  | text written =>
    simp only [Json.present_text, Bool.not_eq_false', String.isEmpty_iff] at absent
    simp only [ofValue_text, absent, ↓reduceIte]
  | null | bool | number | list | record =>
    simp only [ofValue, absent, Bool.false_eq_true, ↓reduceIte]

theorem sorted_perm (names : List String) : (sorted names).Perm names :=
  List.mergeSort_perm names _

end NodeSmith.Union
