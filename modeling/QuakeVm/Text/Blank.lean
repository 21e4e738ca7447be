/-!
# Blank characters

The characters with the Unicode property `White_Space`, and the two things done with them: cutting
a text into words and dropping the blanks at its end.
-/

namespace QuakeVm.Text

/-- The Unicode property `White_Space`. -/
def isBlank (c : Char) : Bool :=
  let n := c.toNat
  (0x09 ≤ n && n ≤ 0x0d) || n == 0x20 || n == 0x85 || n == 0xa0 || n == 0x1680 ||
    (0x2000 ≤ n && n ≤ 0x200a) || n == 0x2028 || n == 0x2029 || n == 0x202f || n == 0x205f ||
    n == 0x3000

/-- The fields between the characters that satisfy `p`; never the empty list. -/
def fields (p : Char → Bool) : List Char → List (List Char)
  | [] => [[]]
  | c :: rest =>
    if p c then [] :: fields p rest
    else
      match fields p rest with
      | [] => [[c]]
      | field :: more => (c :: field) :: more

/-- The longest runs of characters that do not satisfy `p`. -/
def words (p : Char → Bool) (s : String) : List String :=
  ((fields p s.toList).filter (! ·.isEmpty)).map String.ofList

/-- The text without the blanks at its end. -/
def trimEnd (s : String) : String :=
  String.ofList (s.toList.reverse.dropWhile isBlank).reverse

end QuakeVm.Text
