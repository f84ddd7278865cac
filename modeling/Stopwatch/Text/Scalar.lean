import Stopwatch.Text

/-!
# Characters of a byte string

`Text.scalars` cuts a text into characters: each well-formed UTF-8 sequence is one `Scalar`, and each
byte that belongs to none is a scalar of its own. A stray byte `b` has the code `0xDC00 + b`, a value
no well-formed sequence has, so codes order and tell apart all texts.

* `flatMap_bytes_scalars`: the scalars of a text, written one after another, are the text.
-/

namespace Stopwatch

/-- One character: its code and the bytes it was read from. -/
structure Scalar where
  code : Nat
  bytes : Text
  deriving DecidableEq, Repr

namespace Scalar

/-- Whether `b` continues a UTF-8 sequence. -/
def isTail (b : UInt8) : Bool := 0x80 ≤ b && b ≤ 0xBF

/-- The six payload bits of a continuation byte. -/
def tailBits (b : UInt8) : Nat := b.toNat % 64

/-- The code and the length of the well-formed UTF-8 sequence `t` starts with. -/
def decode? : Text → Option (Nat × Nat)
  | [] => none
  | a :: t =>
    if a < 0x80 then some (a.toNat, 1)
    else if 0xC2 ≤ a && a ≤ 0xDF then
      match t with
      | b :: _ => if isTail b then some (a.toNat % 32 * 64 + tailBits b, 2) else none
      | _ => none
    else if 0xE0 ≤ a && a ≤ 0xEF then
      match t with
      | b :: c :: _ =>
        let code := a.toNat % 16 * 4096 + tailBits b * 64 + tailBits c
        if isTail b && isTail c && 0x800 ≤ code && !(0xD800 ≤ code && code ≤ 0xDFFF) then
          some (code, 3)
        else none
      | _ => none
    else if 0xF0 ≤ a && a ≤ 0xF4 then
      match t with
      | b :: c :: d :: _ =>
        let code := a.toNat % 8 * 262144 + tailBits b * 4096 + tailBits c * 64 + tailBits d
        if isTail b && isTail c && isTail d && 0x10000 ≤ code && code ≤ 0x10FFFF then
          some (code, 4)
        else none
      | _ => none
    else none

/-- The first character of a text that starts with `b`, and the number of bytes after `b` it takes. -/
def first (b : UInt8) (t : Text) : Nat × Nat :=
  match decode? (b :: t) with
  | some (code, len) => (code, len - 1)
  | none => (0xDC00 + b.toNat, 0)

end Scalar

namespace Text

/-- `scalars` with a budget of steps; one step per byte is enough. -/
def scalarsAux : Nat → Text → List Scalar
  | _, [] => []
  | 0, _ => []
  | n + 1, b :: t =>
    let (code, more) := Scalar.first b t
    ⟨code, b :: t.take more⟩ :: scalarsAux n (t.drop more)

/-- The characters of a text, from left to right. -/
def scalars (t : Text) : List Scalar := scalarsAux t.length t

theorem flatMap_bytes_scalarsAux :
    ∀ (n : Nat) (t : Text), t.length ≤ n → (scalarsAux n t).flatMap Scalar.bytes = t
  | _, [], _ => by simp [scalarsAux]
  | 0, _ :: _, h => by simp at h
  | n + 1, b :: t, h => by
    have ih := flatMap_bytes_scalarsAux n (t.drop (Scalar.first b t).2)
      (by simp only [List.length_drop, List.length_cons] at h ⊢; omega)
    simp only [scalarsAux, List.flatMap_cons, ih]
    simp

/-- Cutting a text into characters loses nothing. -/
theorem flatMap_bytes_scalars (t : Text) : t.scalars.flatMap Scalar.bytes = t :=
  flatMap_bytes_scalarsAux _ t (Nat.le_refl _)

/-- The codes of the characters of a text. -/
def codes (t : Text) : List Nat := t.scalars.map Scalar.code

/-- Lexicographic order on lists of codes. -/
def leCodes : List Nat → List Nat → Bool
  | [], _ => true
  | _ :: _, [] => false
  | a :: s, b :: t => a < b || (a == b && leCodes s t)

/-- Code order of texts. -/
def le (s t : Text) : Bool := leCodes s.codes t.codes

/-- The distinct members of a list of texts, in code order. -/
def sortedSet (ts : List Text) : List Text := (ts.eraseDups).mergeSort le

end Text

end Stopwatch
