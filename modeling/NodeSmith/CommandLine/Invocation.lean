set_option autoImplicit false

namespace NodeSmith

structure Invocation where
  /-- The arguments that are no options, in their order. -/
  operands : List String := []
  settings : Option String := none
  output : Option String := none
  verbose : Bool := false
  help : Bool := false
  deriving DecidableEq, Repr

namespace Invocation

/-- An option, with what it does to the invocation. -/
inductive Switch
  | valued (set : Invocation → String → Invocation)
  | flag (set : Invocation → Invocation)

def longSwitch? : String → Option Switch
  | "--config" => some (.valued fun invocation value => { invocation with settings := some value })
  | "--output" => some (.valued fun invocation value => { invocation with output := some value })
  | "--verbose" => some (.flag fun invocation => { invocation with verbose := true })
  | "--help" => some (.flag fun invocation => { invocation with help := true })
  | _ => none

def shortSwitch? : Char → Option Switch
  | 'c' => longSwitch? "--config"
  | 'o' => longSwitch? "--output"
  | 'v' => longSwitch? "--verbose"
  | _ => none

/-- An invocation in which an option may still wait for its value in the next argument. -/
inductive Progress
  | ready (invocation : Invocation)
  | waiting (set : String → Invocation)

def readLong (invocation : Invocation) (argument : String) : Option Progress :=
  let name := String.ofList (argument.toList.takeWhile (· != '='))
  match longSwitch? name, argument.toList.dropWhile (· != '=') with
  | some (.valued set), [] => some (.waiting (set invocation))
  | some (.valued set), _ :: value => some (.ready (set invocation (String.ofList value)))
  | some (.flag set), [] => some (.ready (set invocation))
  | some (.flag _), _ :: _ => none
  | none, _ => none

/-- Reads letters that each call an option. One that takes a value takes the rest of them. -/
def readShort (invocation : Invocation) : List Char → Option Progress
  | [] => some (.ready invocation)
  | letter :: rest =>
    match shortSwitch? letter with
    | some (.flag set) => readShort (set invocation) rest
    | some (.valued set) =>
      if rest.isEmpty then some (.waiting (set invocation))
      else some (.ready (set invocation (String.ofList rest)))
    | none => none

def takeOperands (invocation : Invocation) (arguments : List String) : Invocation :=
  { invocation with operands := invocation.operands ++ arguments }

/-- Reads arguments from left to right; none if they break the rules. -/
def readFrom : Progress → List String → Option Invocation
  | .ready invocation, [] => some invocation
  | .waiting _, [] => none
  | .waiting set, argument :: rest => readFrom (.ready (set argument)) rest
  | .ready invocation, argument :: rest =>
    match argument.toList with
    | ['-', '-'] => some (takeOperands invocation rest)
    | '-' :: '-' :: _ =>
      match readLong invocation argument with
      | some progress => readFrom progress rest
      | none => none
    | '-' :: letter :: letters =>
      match readShort invocation (letter :: letters) with
      | some progress => readFrom progress rest
      | none => none
    | _ => readFrom (.ready (takeOperands invocation [argument])) rest

def ofArguments (arguments : List String) : Option Invocation := readFrom (.ready {}) arguments

end Invocation

end NodeSmith
