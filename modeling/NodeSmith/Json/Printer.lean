import NodeSmith.Json.Value

set_option autoImplicit false

namespace NodeSmith

/-- The text of a number. A decimal is its digits and the power of ten that scales them. -/
def Number.render : Number → String
  | whole value => toString value
  | decimal negative digits exponent =>
    (if negative then "-" else "") ++ toString digits ++ "e" ++ toString exponent
  | infinite negative => if negative then "-Infinity" else "Infinity"
  | notANumber => "NaN"

namespace Json

def hexDigit (value : Nat) : Char :=
  if value < 10 then Char.ofNat (48 + value) else Char.ofNat (87 + value)

/-- A code point inside quotes: quotes, backslashes, control characters and halves of surrogate
pairs are escaped. -/
def escape (point : Nat) : List Char :=
  if point = 0x22 then ['\\', '"']
  else if point = 0x5C then ['\\', '\\']
  else if point < 0x20 || Text.isHalf point then
    ['\\', 'u', hexDigit (point / 0x1000), hexDigit (point / 0x100 % 16),
      hexDigit (point / 0x10 % 16), hexDigit (point % 16)]
  else [Char.ofNat point]

def quote (value : String) : String :=
  String.ofList ('"' :: (Text.points value.toList).flatMap escape ++ ['"'])

mutual

def render : Json → String
  | null => "null"
  | bool value => if value then "true" else "false"
  | number value => value.render
  | text value => quote value
  | list items => "[" ++ ",".intercalate (renderItems items) ++ "]"
  | record fields => "\x7b" ++ ",".intercalate (renderFields fields) ++ "\x7d"

def renderItems : List Json → List String
  | [] => []
  | item :: rest => item.render :: renderItems rest

def renderFields : List (String × Json) → List String
  | [] => []
  | (name, value) :: rest => (quote name ++ ":" ++ value.render) :: renderFields rest

end

/-- How a value stands in a generated text. An absent one reads `None`. Generated texts have no
spelling of their own for decimals, lists and records, which stand there as they do in JSON. -/
def display : Json → String
  | null => "None"
  | bool value => if value then "True" else "False"
  | text value => value
  | value => value.render

/-- How a value stands where an absent one leaves no trace. -/
def displayPresent : Json → String
  | null => ""
  | value => value.display

end Json

end NodeSmith
