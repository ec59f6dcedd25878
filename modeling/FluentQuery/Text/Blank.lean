/-!
White space: the characters that separate words, line ends among them.
-/

namespace FluentQuery.Text

/-- The white space of Unicode, and the four separators of ASCII. -/
def isBlank (c : Char) : Bool :=
  let n := c.toNat
  (9 ≤ n && n ≤ 13) || (28 ≤ n && n ≤ 32) || n == 0x85 || n == 0xa0 || n == 0x1680 ||
    (0x2000 ≤ n && n ≤ 0x200a) || n == 0x2028 || n == 0x2029 || n == 0x202f || n == 0x205f ||
    n == 0x3000

def trimEnd (cs : List Char) : List Char := (cs.reverse.dropWhile isBlank).reverse

/-- The words of a text joined by single spaces; `gap` tells whether a space is due before the next
word. -/
def joinWords (gap : Bool) : List Char → List Char
  | [] => []
  | c :: cs =>
    if isBlank c then joinWords true cs
    else if gap then ' ' :: c :: joinWords false cs
    else c :: joinWords false cs

/-- A text with its white space at both ends removed and every other run of it made one space. -/
def collapse (s : String) : String := String.ofList (joinWords false (s.toList.dropWhile isBlank))

theorem isBlank_of_isWhitespace {c : Char} (h : c.isWhitespace) : isBlank c := by
  simp only [Char.isWhitespace, Bool.or_eq_true, decide_eq_true_eq] at h
  rcases h with ((h | h) | h) | h <;> subst h <;> decide

end FluentQuery.Text
