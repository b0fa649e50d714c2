import NodeSmith.Fault

set_option autoImplicit false

namespace NodeSmith.Text

/-- Whether a code point is half of a surrogate pair. A document can write one half alone, but no
character stands for it and no bytes encode it. -/
def isHalf (point : Nat) : Bool := 0xD800 ≤ point && point < 0xE000

/-- The character before the halves. In a text it is followed by one of the characters after the
halves, which tells a half or the mark itself; so texts compare as their code points do. -/
def mark : Char := '\ud7ff'

def told? (c : Char) : Option Nat :=
  if 0xE000 ≤ c.toNat ∧ c.toNat ≤ 0xE800 then some (c.toNat - 0x801) else none

/-- The characters by which a text holds a code point. -/
def ofPoint (point : Nat) : List Char :=
  if 0xD7FF ≤ point ∧ point < 0xE000 then [mark, Char.ofNat (point + 0x801)]
  else [Char.ofNat point]

def ofPoints (points : List Nat) : String := String.ofList (points.flatMap ofPoint)

def points : List Char → List Nat
  | [] => []
  | '\ud7ff' :: next :: rest =>
    match told? next with
    | some point => point :: points rest
    | none => mark.toNat :: points (next :: rest)
  | c :: rest => c.toNat :: points rest

/-- The characters of a text, a half counting as one, each as a text of its own. -/
def characters (text : String) : List String := (points text.toList).map fun point => ofPoints [point]

/-- A text from outside, in which every character stands for itself. -/
def hold (outer : String) : String := ofPoints (outer.toList.map Char.toNat)

/-- The text as it leaves for the outside. -/
def release (text : String) : Except Fault String :=
  let points := points text.toList
  if points.any isHalf then .error .unencodable
  else .ok (String.ofList (points.map Char.ofNat))

def encode (text : String) : Except Fault ByteArray := do return (← release text).toUTF8

def size (text : String) : Nat :=
  (String.ofList ((points text.toList).map Char.ofNat)).utf8ByteSize

end NodeSmith.Text
