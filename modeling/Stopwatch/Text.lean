/-!
# Text as bytes

Source files are byte strings: most are UTF-8, but any byte may occur inside a comment or a literal
and has to come out as it went in. So `Text` is a list of bytes, and a `String` enters through its
UTF-8 encoding (`utf8`).

Everything the library asks of a text is exact on bytes: prefixes, line splitting, a left-to-right
replacement, and the part after the last slash.

* `splitLines` and `joinLines` are inverse to each other: `joinLines_splitLines`.
* `replaceAll` is one pass from the left: a replacement is not searched again.
-/

namespace Stopwatch

/-- A byte string. -/
abbrev Text := List UInt8

/-- The UTF-8 encoding of a string. -/
def utf8 (s : String) : Text := s.toList.flatMap String.utf8EncodeChar

namespace Text

/-- The line feed byte. -/
def newline : UInt8 := 10

/-- White space in the ASCII sense: space, tab, line feed, vertical tab, form feed, carriage return. -/
def isBlank (b : UInt8) : Bool := b == 32 || (9 ≤ b && b ≤ 13)

/-- ASCII decimal digits. -/
def isDigit (b : UInt8) : Bool := 48 ≤ b && b ≤ 57

/-- ASCII letters. -/
def isLetter (b : UInt8) : Bool := (65 ≤ b && b ≤ 90) || (97 ≤ b && b ≤ 122)

/-- The bytes of an ASCII identifier: letters, digits and the underscore. -/
def isNameByte (b : UInt8) : Bool := isLetter b || isDigit b || b == 95

/-- `t` without its trailing white space (ASCII). -/
def trimEnd (t : Text) : Text := (t.reverse.dropWhile isBlank).reverse

/-! ## Lines -/

/-- The pieces between line feeds; a text without one is its own single line. -/
def splitLines : Text → List Text
  | [] => [[]]
  | b :: t =>
    if b = newline then [] :: splitLines t
    else
      match splitLines t with
      | [] => [[b]]
      | l :: ls => (b :: l) :: ls

/-- Lines with a line feed between neighbours. -/
def joinLines : List Text → Text
  | [] => []
  | [l] => l
  | l :: ls => l ++ newline :: joinLines ls

theorem splitLines_ne_nil : ∀ t : Text, splitLines t ≠ []
  | [] => by simp [splitLines]
  | b :: t => by
    unfold splitLines
    split
    · simp
    · split <;> simp

/-- Splitting loses nothing. -/
theorem joinLines_splitLines : ∀ t : Text, joinLines (splitLines t) = t
  | [] => rfl
  | b :: t => by
    have ih := joinLines_splitLines t
    have hne := splitLines_ne_nil t
    unfold splitLines
    split
    · next hb =>
      cases h : splitLines t with
      | nil => exact absurd h hne
      | cons l ls => rw [h] at ih; simp [joinLines, ih, hb]
    · cases h : splitLines t with
      | nil => exact absurd h hne
      | cons l ls =>
        rw [h] at ih
        cases ls with
        | nil => simpa [joinLines] using ih
        | cons m ms => simpa [joinLines] using ih

/-- `t` without its trailing line feeds. -/
def dropFinalNewlines (t : Text) : Text := (t.reverse.dropWhile (· == newline)).reverse

/-! ## Searching and replacing -/

/-- `replaceAll` with `skip` bytes of the last occurrence still to pass over. -/
def replaceAux (pat new : Text) : Nat → Text → Text
  | _, [] => []
  | skip + 1, _ :: t => replaceAux pat new skip t
  | 0, b :: t =>
    if pat.isPrefixOf (b :: t) then new ++ replaceAux pat new (pat.length - 1) t
    else b :: replaceAux pat new 0 t

/-- Every occurrence of the non-empty `pat`, from the left and without overlap, becomes `new`. -/
def replaceAll (pat new t : Text) : Text := replaceAux pat new 0 t

/-- What follows the last slash; all of `t` when there is none. -/
def afterLastSlash (t : Text) : Text := (t.reverse.takeWhile (· != 47)).reverse

/-- `n` copies of `t`, none when `n` is negative. -/
def repeated (t : Text) (n : Int) : Text := (List.replicate n.toNat t).flatten

/-- Texts with a separator between neighbours. -/
def joinWith (sep : Text) : List Text → Text
  | [] => []
  | [t] => t
  | t :: ts => t ++ sep ++ joinWith sep ts

/-- The decimal digits of a number. -/
def decimal (n : Nat) : Text := utf8 (toString n)

/-- The text as a string, when it is well-formed UTF-8. -/
def toString? (t : Text) : Option String := String.fromUTF8? ⟨t.toArray⟩

end Text

end Stopwatch
