set_option autoImplicit false

namespace NodeSmith.Text

def isBreak (c : Char) : Bool := c == '\r' || c == '\n'

/-- The stretches between line breaks, one more than there are breaks. -/
def stretches : List Char → List (List Char)
  | [] => [[]]
  | '\r' :: '\n' :: rest => [] :: stretches rest
  | c :: rest => if isBreak c then [] :: stretches rest else (stretches rest).modifyHead (c :: ·)

def lines (text : String) : List String := (stretches text.toList).map String.ofList

def dropTrailingBreaks (text : String) : String :=
  String.ofList (text.toList.reverse.dropWhile isBreak).reverse

theorem stretches_ne_nil (chars : List Char) : stretches chars ≠ [] := by
  fun_induction stretches chars with
  | case1 => exact List.cons_ne_nil _ _
  | case2 => exact List.cons_ne_nil _ _
  | case3 => exact List.cons_ne_nil _ _
  | case4 c rest _ _ ih => simpa only [ne_eq, List.modifyHead_eq_nil_iff] using ih

end NodeSmith.Text
