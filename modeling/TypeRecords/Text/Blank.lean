/-
White space as Unicode defines it, and texts with the white space at both ends
taken off.
-/

namespace TypeRecords.Text

/-- The characters with the Unicode property White_Space. -/
def isBlank (c : Char) : Bool :=
  let n := c.toNat
  (9 ≤ n && n ≤ 13) || n == 0x20 || n == 0x85 || n == 0xA0 || n == 0x1680 ||
    (0x2000 ≤ n && n ≤ 0x200A) || n == 0x2028 || n == 0x2029 || n == 0x202F ||
    n == 0x205F || n == 0x3000

/-- The text without the blanks in front and behind. -/
def trim (cs : List Char) : List Char :=
  ((cs.dropWhile isBlank).reverse.dropWhile isBlank).reverse

/-- Letters compared without regard to case. Only the ASCII letters have a
second form that matters: the words read with this are ASCII, and no other
character folds into one of their letters. -/
def fold (text : String) : String := String.ofList (text.toList.map Char.toLower)

end TypeRecords.Text
