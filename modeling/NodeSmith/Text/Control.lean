set_option autoImplicit false

namespace NodeSmith.Text

/-- A digit, or a mark between digits, in a control sequence. -/
def isParameter (c : Char) : Bool := '0' ≤ c && c ≤ '?'

def isIntermediate (c : Char) : Bool := ' ' ≤ c && c ≤ '/'

def isFinal (c : Char) : Bool := '@' ≤ c && c ≤ '~'

/-- The length of the control sequence at the front: an escape, an opening bracket, any parameters,
any intermediate characters and a final one. It is zero if there is none. -/
def controlLength : List Char → Nat
  | '\x1b' :: '[' :: rest =>
    let parameters := rest.takeWhile isParameter
    let afterParameters := rest.dropWhile isParameter
    let intermediates := afterParameters.takeWhile isIntermediate
    match afterParameters.dropWhile isIntermediate with
    | last :: _ => if isFinal last then parameters.length + intermediates.length + 3 else 0
    | [] => 0
  | _ => 0

/-- The characters outside control sequences, from the first that is not to be skipped on. -/
def visibleFrom : Nat → List Char → List Char
  | _, [] => []
  | skipped + 1, _ :: rest => visibleFrom skipped rest
  | 0, c :: rest =>
    match controlLength (c :: rest) with
    | 0 => c :: visibleFrom 0 rest
    | length + 1 => visibleFrom length rest

/-- The text without its control sequences. Those that come together when others are left out
stay. -/
def removeControls (text : String) : String := String.ofList (visibleFrom 0 text.toList)

end NodeSmith.Text
