import NodeSmith.Json.Value

set_option autoImplicit false

namespace NodeSmith.Json

def isSpace (c : Char) : Bool := c == ' ' || c == '\t' || c == '\n' || c == '\r'

def skipSpace (chars : List Char) : List Char := chars.dropWhile isSpace

def hexValue? (c : Char) : Option Nat :=
  if '0' ≤ c ∧ c ≤ '9' then some (c.toNat - 48)
  else if 'a' ≤ c ∧ c ≤ 'f' then some (c.toNat - 87)
  else if 'A' ≤ c ∧ c ≤ 'F' then some (c.toNat - 55)
  else none

def hexQuad? (a b c d : Char) : Option Nat := do
  let a ← hexValue? a
  let b ← hexValue? b
  let c ← hexValue? c
  let d ← hexValue? d
  return ((a * 16 + b) * 16 + c) * 16 + d

def escaped? (c : Char) : Option Char :=
  match c with
  | '"' => some '"'
  | '\\' => some '\\'
  | '/' => some '/'
  | 'b' => some '\x08'
  | 'f' => some '\x0c'
  | 'n' => some '\n'
  | 'r' => some '\r'
  | 't' => some '\t'
  | _ => none

def isHighSurrogate (unit : Nat) : Bool := 0xD800 ≤ unit && unit < 0xDC00

def isLowSurrogate (unit : Nat) : Bool := 0xDC00 ≤ unit && unit < 0xE000

def pairPoint (high low : Nat) : Nat := 0x10000 + (high - 0xD800) * 0x400 + (low - 0xDC00)

/-- Reads up to the closing quote; `done` holds the code points that were read before, last one
first. Half a pair is a code point of its own. -/
def readQuoted : List Char → List Nat → Option (String × List Char)
  | '"' :: rest, done => some (Text.ofPoints done.reverse, rest)
  | '\\' :: 'u' :: a :: b :: c :: d :: '\\' :: 'u' :: e :: f :: g :: h :: rest, done =>
    match hexQuad? a b c d, hexQuad? e f g h with
    | some high, some low =>
      if isHighSurrogate high && isLowSurrogate low then
        readQuoted rest (pairPoint high low :: done)
      else readQuoted ('\\' :: 'u' :: e :: f :: g :: h :: rest) (high :: done)
    | some _, none => none
    | none, _ => none
  | '\\' :: 'u' :: a :: b :: c :: d :: rest, done =>
    match hexQuad? a b c d with
    | some unit => readQuoted rest (unit :: done)
    | none => none
  | '\\' :: c :: rest, done =>
    match escaped? c with
    | some plain => readQuoted rest (plain.toNat :: done)
    | none => none
  | c :: rest, done => if c.toNat < 0x20 || c = '\\' then none else readQuoted rest (c.toNat :: done)
  | [], _ => none

def digitsValue (digits : List Char) : Nat :=
  digits.foldl (fun value c => value * 10 + (c.toNat - 48)) 0

def readDigits (chars : List Char) : Option (List Char × List Char) :=
  match chars.takeWhile Char.isDigit with
  | [] => none
  | digits => some (digits, chars.dropWhile Char.isDigit)

/-- Reads the whole part of a number: a zero, or digits that do not begin with one. -/
def readWhole : List Char → Option (List Char × List Char)
  | '0' :: rest => some (['0'], rest)
  | chars => readDigits chars

def readFraction : List Char → Option (List Char × List Char)
  | '.' :: rest => readDigits rest
  | _ => none

def readExponent : List Char → Option (Int × List Char)
  | mark :: rest =>
    if mark = 'e' ∨ mark = 'E' then
      match rest with
      | '-' :: more => (readDigits more).map fun (digits, tail) => (-digitsValue digits, tail)
      | '+' :: more => (readDigits more).map fun (digits, tail) => (digitsValue digits, tail)
      | more => (readDigits more).map fun (digits, tail) => (digitsValue digits, tail)
    else none
  | [] => none

/-- The most digits that a whole number may be written with. -/
def digitLimit : Nat := 4300

def wholeNumber (negative : Bool) (digits : List Char) : Except Fault Number :=
  if digitLimit < digits.length then .error .oversized
  else
    let value : Int := digitsValue digits
    .ok (.whole (if negative then -value else value))

def readUnsigned (negative : Bool) (chars : List Char) : Except Fault (Json × List Char) :=
  match readWhole chars with
  | none => .error .malformed
  | some (digits, afterWhole) => do
    let fraction := readFraction afterWhole
    let (places, afterFraction) := fraction.getD ([], afterWhole)
    let scale := readExponent afterFraction
    let (power, rest) := scale.getD (0, afterFraction)
    if fraction.isNone && scale.isNone then
      return (number (← wholeNumber negative digits), rest)
    else
      let value := digitsValue (digits ++ places)
      return (number (.decimal negative value (power - places.length)), rest)

def dropWord? : List Char → List Char → Option (List Char)
  | [], chars => some chars
  | _ :: _, [] => none
  | w :: word, c :: chars => if w = c then dropWord? word chars else none

def readNamed (chars : List Char) : Option (Json × List Char) :=
  [("null", null), ("true", bool true), ("false", bool false), ("NaN", number .notANumber),
    ("Infinity", number (.infinite false)), ("-Infinity", number (.infinite true))].findSome?
    fun (word, value) => (dropWord? word.toList chars).map (value, ·)

def readName : List Char → Option (String × List Char)
  | '"' :: quoted => do
    let (name, rest) ← readQuoted quoted []
    match skipSpace rest with
    | ':' :: after => some (name, skipSpace after)
    | _ => none
  | _ => none

def readNumber : List Char → Except Fault (Json × List Char)
  | '-' :: rest => readUnsigned true rest
  | chars => readUnsigned false chars

mutual

/-- Reads a value whose nesting and length the fuel bounds. -/
def readValue : Nat → List Char → Except Fault (Json × List Char)
  | 0, _ => .error .malformed
  | fuel + 1, chars =>
    match chars with
    | '"' :: rest =>
      match readQuoted rest [] with
      | some (value, tail) => .ok (text value, tail)
      | none => .error .malformed
    | '[' :: rest =>
      match skipSpace rest with
      | ']' :: tail => .ok (list [], tail)
      | more => readItems fuel more []
    | '{' :: rest =>
      match skipSpace rest with
      | '}' :: tail => .ok (record [], tail)
      | more => readFields fuel more []
    | more =>
      match readNamed more with
      | some found => .ok found
      | none => readNumber more

/-- Reads the items of a list up to its end; `done` holds those before, last one first. -/
def readItems : Nat → List Char → List Json → Except Fault (Json × List Char)
  | 0, _, _ => .error .malformed
  | fuel + 1, chars, done => do
    let (item, rest) ← readValue fuel chars
    match skipSpace rest with
    | ',' :: more => readItems fuel (skipSpace more) (item :: done)
    | ']' :: tail => .ok (list (item :: done).reverse, tail)
    | _ => .error .malformed

/-- Reads the fields of a record up to its end; `done` holds those before, last one first. -/
def readFields : Nat → List Char → List (String × Json) → Except Fault (Json × List Char)
  | 0, _, _ => .error .malformed
  | fuel + 1, chars, done =>
    match readName chars with
    | none => .error .malformed
    | some (name, after) => do
      let (value, rest) ← readValue fuel after
      match skipSpace rest with
      | ',' :: more => readFields fuel (skipSpace more) ((name, value) :: done)
      | '}' :: tail => .ok (record (Assoc.ofPairs ((name, value) :: done).reverse), tail)
      | _ => .error .malformed

end

/-- The value that a text is, with space around it. Each token takes a character and at most two
calls, so twice the length is fuel enough. -/
def parse (source : String) : Except Fault Json := do
  let chars := source.toList
  let (value, rest) ← readValue (2 * chars.length + 2) (skipSpace chars)
  if (skipSpace rest).isEmpty then return value else throw .malformed

/-- The value that a document is. The whole document has to be UTF-8 before any of it is read. -/
def ofBytes (bytes : ByteArray) : Except Fault Json :=
  match String.fromUTF8? bytes with
  | none => .error .undecodable
  | some source => parse source

end NodeSmith.Json
