set_option autoImplicit false

namespace NodeSmith

inductive Rejection
  | empty
  | unbalanced (opened closed : Nat)
  | refused (message : String)
  deriving DecidableEq, Repr

def Rejection.message : Rejection → String
  | .empty => "Generated code is empty"
  | .unbalanced opened closed =>
    "Generated code has unbalanced braces: " ++ toString opened ++ " open, " ++ toString closed ++
      " close"
  | .refused message => message

/-- Why an operation stops. Values, documents, generated texts and files each have their own
causes. -/
inductive Fault
  /-- A value that is present stands where text is needed. -/
  | notText
  /-- A value that has no items stands where items are walked. -/
  | notIterable
  /-- A list or a record stands where a key is needed. -/
  | notKey
  /-- A value that is present but not text is to be taken apart at its bars. -/
  | notSplittable
  /-- A value that has no fields stands where a record is needed. -/
  | notRecord
  /-- A record is to be appended to a value that is no list. -/
  | notList
  /-- A value is given to a name that takes none of its sort, or to one that takes none at all. -/
  | notAssignable
  | notWritable
  /-- The references of settings are gone, with the table that held them. -/
  | unreferred
  /-- A document is not UTF-8. -/
  | undecodable
  /-- Half a surrogate pair is to be written, or stands in a path. -/
  | unencodable
  /-- A null character stands in a path. -/
  | embeddedNull
  /-- A document is not JSON. -/
  | malformed
  /-- A document writes out a whole number of too many digits. -/
  | oversized
  | rejected (reason : Rejection)
  | missing
  | alreadyExists
  | isDirectory
  | notDirectory
  /-- A name, or a path as a whole, is longer than names or paths may be. -/
  | nameTooLong
  /-- A directory in use, or any other refusal of the file system. -/
  | busy
  deriving DecidableEq, Repr

def Fault.message : Fault → String
  | .notText => "text is needed"
  | .notIterable => "a list is needed"
  | .notKey => "a list or a record is no key"
  | .notSplittable => "only text has members"
  | .notRecord => "a record is needed"
  | .notList => "only a list can be appended to"
  | .notAssignable => "the name takes no such value"
  | .notWritable => "the name takes no value"
  | .unreferred => "the settings have no references"
  | .undecodable => "the document is not UTF-8"
  | .unencodable => "half a surrogate pair cannot be encoded"
  | .embeddedNull => "a path has no null character"
  | .malformed => "the document is not JSON"
  | .oversized => "a whole number has too many digits"
  | .rejected reason => reason.message
  | .missing => "no such file or directory"
  | .alreadyExists => "the file exists"
  | .isDirectory => "is a directory"
  | .notDirectory => "is not a directory"
  | .nameTooLong => "a file name is too long"
  | .busy => "the file system refuses"

end NodeSmith
