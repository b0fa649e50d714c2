set_option autoImplicit false

namespace NodeSmith.Text

/-- The white space of Unicode, with the four information separators. The zero-width space, the
byte order mark and the Mongolian vowel separator are not in it. -/
def isBlank (c : Char) : Bool :=
  let code := c.toNat
  (0x09 ≤ code && code ≤ 0x0D) || (0x1C ≤ code && code ≤ 0x20) || code == 0x85 || code == 0xA0 ||
    code == 0x1680 || (0x2000 ≤ code && code ≤ 0x200A) || code == 0x2028 || code == 0x2029 ||
    code == 0x202F || code == 0x205F || code == 0x3000

theorem isBlank_bar : isBlank '|' = false := by decide

theorem ne_bar_of_isBlank {c : Char} (blank : isBlank c = true) : c ≠ '|' := by
  rintro rfl
  rw [isBlank_bar] at blank
  cases blank

def removeBlanks (text : String) : String :=
  String.ofList (text.toList.filter fun c => !isBlank c)

@[simp] theorem toList_removeBlanks (text : String) :
    (removeBlanks text).toList = text.toList.filter fun c => !isBlank c := by
  simp only [removeBlanks, String.toList_ofList]

end NodeSmith.Text
