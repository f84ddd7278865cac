import Stopwatch.Text.Scalar

/-!
# White space

White space in the Unicode sense, and the two trimming operations that use it: `trimEndWide` on byte
strings and `strip` on strings.
-/

namespace Stopwatch.Text

/-- The white space code points. -/
def isBlankCode (c : Nat) : Bool :=
  (9 ≤ c && c ≤ 13) || (28 ≤ c && c ≤ 32) || c == 0x85 || c == 0xA0 || c == 0x1680 ||
    (0x2000 ≤ c && c ≤ 0x200A) || c == 0x2028 || c == 0x2029 || c == 0x202F || c == 0x205F ||
    c == 0x3000

/-- `t` without its trailing white space characters; a byte outside well-formed UTF-8 is none. -/
def trimEndWide (t : Text) : Text :=
  ((t.scalars.reverse.dropWhile fun s => isBlankCode s.code).reverse).flatMap Scalar.bytes

/-- Whether a character is white space. -/
def isBlankChar (c : Char) : Bool := isBlankCode c.toNat

/-- The characters of a string without white space at either end. -/
def strip (s : String) : List Char :=
  ((s.toList.dropWhile isBlankChar).reverse.dropWhile isBlankChar).reverse

end Stopwatch.Text
