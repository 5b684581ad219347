/-!
# Blank characters

Text is trimmed and separators are skipped by one notion of blank: the characters that Unicode
lists as white space, together with the four information separators `U+001C` to `U+001F`.
-/

namespace RouteScribe.Text

/-- A blank is a line or paragraph break, a tabulator, one of the space characters of any width, or
one of the four information separators. -/
def isBlank (c : Char) : Bool :=
  let n := c.toNat
  (9 ≤ n && n ≤ 13) || (0x1c ≤ n && n ≤ 0x20) || n == 0x85 || n == 0xa0 || n == 0x1680 ||
    (0x2000 ≤ n && n ≤ 0x200a) || n == 0x2028 || n == 0x2029 || n == 0x202f || n == 0x205f ||
    n == 0x3000

/-- The text without the blanks it starts with. -/
def trimLeft (cs : List Char) : List Char :=
  cs.dropWhile isBlank

/-- The text without the characters at its end that pass the test. -/
def dropRightWhile (test : Char → Bool) (cs : List Char) : List Char :=
  (cs.reverse.dropWhile test).reverse

/-- The text without the blanks it starts and ends with. -/
def trim (cs : List Char) : List Char :=
  dropRightWhile isBlank (trimLeft cs)

/-- Trimming at the level of strings. -/
def trimmed (s : String) : String :=
  String.ofList (trim s.toList)

@[simp] theorem trimLeft_nil : trimLeft [] = [] := rfl

@[simp] theorem trim_nil : trim [] = [] := rfl

/-- A text that starts with no blank is left as it is. -/
theorem trimLeft_eq_self {c : Char} {cs : List Char} (h : isBlank c = false) :
    trimLeft (c :: cs) = c :: cs := by
  simp [trimLeft, List.dropWhile, h]

end RouteScribe.Text
