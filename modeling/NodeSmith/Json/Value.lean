import NodeSmith.Assoc
import NodeSmith.Fault
import NodeSmith.Text.Point

set_option autoImplicit false

namespace NodeSmith

/-- A number as it is written. A decimal is `digits * 10 ^ exponent`, exactly. -/
inductive Number
  | whole (value : Int)
  | decimal (negative : Bool) (digits : Nat) (exponent : Int)
  | infinite (negative : Bool)
  | notANumber
  deriving DecidableEq, Repr

inductive Json
  | null
  | bool (value : Bool)
  | number (value : Number)
  | text (value : String)
  | list (items : List Json)
  | record (fields : List (String × Json))
  deriving Inhabited, BEq, Repr

namespace Number

/-- Whether `digits * 10 ^ exponent` is at most half the least positive double, `2 ^ -1075`, so
that it is rounded to zero. The number of digits decides far from that border. -/
def underflows (digits : Nat) (exponent : Int) : Bool :=
  let places := exponent + ((Nat.toDigits 10 digits).length : Int)
  if digits = 0 then true
  else if places < -330 then true
  else if -320 < places then false
  else decide (digits * Nat.pow 2 1075 ≤ Nat.pow 10 (-exponent).toNat)

def isZero : Number → Bool
  | whole value => value == 0
  | decimal _ digits exponent => underflows digits exponent
  | infinite _ => false
  | notANumber => false

end Number

namespace Json

/-- Whether a value is present: everything is but null, false, zero and what is empty. -/
def present : Json → Bool
  | null => false
  | bool value => value
  | number value => !value.isZero
  | text value => !value.isEmpty
  | list items => !items.isEmpty
  | record fields => !fields.isEmpty

def orElse (value other : Json) : Json := if value.present then value else other

def ofText? : Option String → Json
  | some value => text value
  | none => null

def asText : Json → Except Fault String
  | text value => .ok value
  | _ => .error .notText

/-- The items that a value is walked by: those of a list, the characters of a text and the field
names of a record. -/
def items : Json → Except Fault (List Json)
  | list items => .ok items
  | text value => .ok ((Text.characters value).map text)
  | record fields => .ok ((Assoc.keys fields).map text)
  | _ => .error .notIterable

def asRecord : Json → Except Fault (List (String × Json))
  | record fields => .ok fields
  | _ => .error .notRecord

/-- A field of a record, null if the record does not have it. -/
def field (fields : List (String × Json)) (name : String) : Json :=
  (Assoc.get? fields name).getD null

@[simp] theorem present_null : present null = false := rfl

@[simp] theorem present_text (value : String) : present (text value) = !value.isEmpty := rfl

theorem present_ofText? (value : Option String) :
    (ofText? value).present = true ↔ ∃ shown, value = some shown ∧ shown ≠ "" := by
  cases value with
  | none => simp only [ofText?, present_null, Bool.false_eq_true, reduceCtorEq, false_and,
      exists_false]
  | some shown => simp only [ofText?, present_text, Bool.not_eq_true', String.isEmpty_eq_false_iff,
      Option.some.injEq, exists_eq_left', ne_eq]

end Json

end NodeSmith
