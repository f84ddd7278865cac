import Mathlib
import Stopwatch.Text.Blank

/-!
# Characters at a cut

Whether some bytes are a character is told by these bytes alone, so a text may be cut into characters in
parts: in front of one of its characters (`scalars_of_append`), and in front of white space in the ASCII
sense (`scalars_append_blank`).

* `trimEndWide_append_blank`: what `trimEndWide` leaves is left again, also with such white space behind it.
-/

namespace Stopwatch

open Text

namespace Scalar

/-- **A character is told by its own bytes**, of which all but the first one continue it. -/
theorem decode?_cases {t : Text} {code len : Nat} (h : decode? t = some (code, len)) :
    ∃ head rest, t = head ++ rest ∧ head.length = len ∧ head ≠ [] ∧
      (∀ b ∈ head.tail, isTail b = true) ∧ ∀ u, decode? (head ++ u) = some (code, len) := by
  revert h
  fun_cases decode? t
  case case2 a t hone =>
    intro h
    obtain ⟨rfl, rfl⟩ := Prod.mk.inj (Option.some.inj h)
    exact ⟨[a], t, rfl, rfl, by simp, by simp, fun u => by simp [decode?, hone]⟩
  case case3 a hone htwo b t htail =>
    intro h
    obtain ⟨rfl, rfl⟩ := Prod.mk.inj (Option.some.inj h)
    refine ⟨[a, b], t, rfl, rfl, by simp, by simpa using htail, fun u => ?_⟩
    simp only [List.cons_append, List.nil_append, decode?, if_neg hone, if_pos htwo, if_pos htail]
  case case6 a hone htwo hthree b c t code htail =>
    intro h
    obtain ⟨rfl, rfl⟩ := Prod.mk.inj (Option.some.inj h)
    refine ⟨[a, b, c], t, rfl, rfl, by simp, by simp_all, fun u => ?_⟩
    simp only [List.cons_append, List.nil_append, decode?, if_neg hone, if_neg htwo, if_pos hthree]
    exact if_pos htail
  case case9 a hone htwo hthree hfour b c d t code htail =>
    intro h
    obtain ⟨rfl, rfl⟩ := Prod.mk.inj (Option.some.inj h)
    refine ⟨[a, b, c, d], t, rfl, rfl, by simp, by simp_all, fun u => ?_⟩
    simp only [List.cons_append, List.nil_append, decode?, if_neg hone, if_neg htwo, if_neg hthree,
      if_pos hfour]
    exact if_pos htail
  all_goals exact fun h => absurd h (by simp)

/-- Whatever follows, a character stays one. -/
theorem decode?_append {t : Text} {code len : Nat} (h : decode? t = some (code, len)) (u : Text) :
    decode? (t ++ u) = some (code, len) := by
  obtain ⟨head, rest, rfl, -, -, -, hdecode⟩ := decode?_cases h
  rw [List.append_assoc]
  exact hdecode _

/-- A text that does not continue a character. -/
def Stops (u : Text) : Prop := ∀ b, u.head? = some b → isTail b = false

theorem decode?_append_of_stops {t u : Text} (hne : t ≠ []) (hstop : Stops u) :
    decode? (t ++ u) = decode? t := by
  cases ht : decode? t with
  | some r => exact decode?_append ht u
  | none =>
    cases htu : decode? (t ++ u) with
    | none => rfl
    | some r =>
      obtain ⟨head, rest, hsplit, -, -, htail, hdecode⟩ := decode?_cases htu
      rcases List.append_eq_append_iff.mp hsplit with ⟨v, rfl, rfl⟩ | ⟨v, rfl, -⟩
      · -- The character would go on into `u`.
        cases v with
        | nil => rw [← hdecode [], List.append_nil, List.append_nil, ht]
        | cons b v =>
          have hb : isTail b = true := htail b (by
            rw [List.tail_append_of_ne_nil hne]
            exact List.mem_append_right _ List.mem_cons_self)
          rw [hstop b rfl] at hb
          exact absurd hb (by simp)
      · rw [hdecode v] at ht
        exact absurd ht (by simp)

theorem first_eq_of_decode? {b c : UInt8} {t u : Text} (hb : b = c)
    (h : decode? (b :: t) = decode? (c :: u)) : first b t = first c u := by
  rw [first, first, h, hb]

theorem length_first_le (b : UInt8) (t : Text) : (first b t).2 ≤ t.length := by
  unfold first
  split
  · next code len h =>
    obtain ⟨head, rest, hsplit, rfl, -, -, -⟩ := decode?_cases h
    have hlength := congrArg List.length hsplit
    rw [List.length_cons, List.length_append] at hlength
    change head.length - 1 ≤ t.length
    omega
  · exact Nat.zero_le _

theorem first_append_of_stops (b : UInt8) (t : Text) {u : Text} (hstop : Stops u) :
    first b (t ++ u) = first b t :=
  first_eq_of_decode? rfl (decode?_append_of_stops (List.cons_ne_nil b t) hstop)

/-- What follows a character may be left out. -/
theorem first_of_append {b : UInt8} {t u : Text} (h : (first b (t ++ u)).2 ≤ t.length) :
    first b t = first b (t ++ u) := by
  refine first_eq_of_decode? rfl ?_
  cases ht : decode? (b :: t) with
  | some r => exact (decode?_append ht u).symm
  | none =>
    cases htu : decode? (b :: (t ++ u)) with
    | none => rfl
    | some r =>
      obtain ⟨head, rest, hsplit, hlength, -, -, hdecode⟩ := decode?_cases htu
      rw [first, htu] at h
      change r.2 - 1 ≤ t.length at h
      rw [← List.cons_append] at hsplit
      rcases List.append_eq_append_iff.mp hsplit with ⟨v, rfl, -⟩ | ⟨v, hv, -⟩
      · have hnil : v = [] := by
          rw [List.length_append, List.length_cons] at hlength
          exact List.eq_nil_of_length_eq_zero (by omega)
        rw [hnil, List.append_nil] at hdecode
        rw [← hdecode [], List.append_nil, ht]
      · rw [hv, hdecode v] at ht
        exact absurd ht (by simp)

end Scalar

namespace Text

open Scalar

theorem scalarsAux_eq {n : Nat} {t : Text} (h : t.length ≤ n) : scalarsAux n t = scalars t := by
  suffices hall : ∀ (n m : Nat) (t : Text), t.length ≤ n → t.length ≤ m →
      scalarsAux n t = scalarsAux m t from hall n t.length t h le_rfl
  intro n
  induction n with
  | zero =>
    intro m t hn _
    obtain rfl := List.eq_nil_of_length_eq_zero (Nat.le_zero.mp hn)
    cases m <;> rfl
  | succ n ih =>
    intro m t hn hm
    cases t with
    | nil => cases m <;> rfl
    | cons b t =>
      cases m with
      | zero => exact absurd hm (by simp)
      | succ m =>
        rw [List.length_cons] at hn hm
        have hdrop : (t.drop (first b t).2).length ≤ t.length := by simp
        simp only [scalarsAux]
        rw [ih m _ (by omega) (by omega)]

/-- The characters of a text are its first one and those behind it. -/
theorem scalars_cons (b : UInt8) (t : Text) :
    scalars (b :: t) =
      ⟨(first b t).1, b :: t.take (first b t).2⟩ :: scalars (t.drop (first b t).2) := by
  rw [← scalarsAux_eq (n := t.length) (t := t.drop (first b t).2) (by simp)]
  rfl

/-- A text may be cut where nothing continues a character. -/
theorem scalars_append {t u : Text} (hstop : Stops u) : scalars (t ++ u) = scalars t ++ scalars u := by
  induction hn : t.length using Nat.strong_induction_on generalizing t with
  | _ n ih =>
    cases t with
    | nil => rfl
    | cons b t =>
      have hle := length_first_le b t
      have hdrop : (t.drop (first b t).2).length < n := by
        rw [← hn, List.length_drop, List.length_cons]
        omega
      rw [List.cons_append, scalars_cons, scalars_cons, first_append_of_stops b t hstop,
        List.take_append_of_le_length hle, List.drop_append_of_le_length hle, ih _ hdrop rfl]
      rfl

/-- A text may be cut behind any of its characters. -/
theorem scalars_of_append {t : Text} {xs ys : List Scalar} (h : scalars t = xs ++ ys) :
    scalars (xs.flatMap Scalar.bytes) = xs := by
  induction xs generalizing t with
  | nil => rfl
  | cons x xs ih =>
    cases t with
    | nil => exact absurd h (by simp [scalars, scalarsAux])
    | cons b t =>
      rw [scalars_cons, List.cons_append] at h
      obtain ⟨rfl, hrest⟩ := List.cons.inj h
      have hle := length_first_le b t
      have hbytes : t = t.take (first b t).2 ++ xs.flatMap Scalar.bytes ++ ys.flatMap Scalar.bytes := by
        rw [List.append_assoc, ← List.flatMap_append, ← hrest, flatMap_bytes_scalars,
          List.take_append_drop]
      have hlength : (t.take (first b t).2).length = (first b t).2 := by
        rw [List.length_take, Nat.min_eq_left hle]
      have hfirst : first b (t.take (first b t).2 ++ xs.flatMap Scalar.bytes) = first b t := by
        conv_rhs => rw [hbytes]
        refine first_of_append ?_
        rw [← hbytes, List.length_append, hlength]
        exact Nat.le_add_right _ _
      have htake : (t.take (first b t).2 ++ xs.flatMap Scalar.bytes).take (first b t).2 =
          t.take (first b t).2 := List.take_left' hlength
      have hdrop : (t.take (first b t).2 ++ xs.flatMap Scalar.bytes).drop (first b t).2 =
          xs.flatMap Scalar.bytes := List.drop_left' hlength
      rw [List.flatMap_cons, List.cons_append, scalars_cons, hfirst, htake, hdrop, ih hrest]

/-! ## White space -/

theorem toNat_of_isBlank {b : UInt8} (h : isBlank b = true) :
    b.toNat = 32 ∨ 9 ≤ b.toNat ∧ b.toNat ≤ 13 := by
  simpa [isBlank, UInt8.le_iff_toNat_le, ← UInt8.toNat_inj] using h

theorem not_isTail_of_isBlank {b : UInt8} (h : isBlank b = true) : isTail b = false := by
  have hcode := toNat_of_isBlank h
  simp only [isTail, Bool.and_eq_false_iff, decide_eq_false_iff_not, UInt8.le_iff_toNat_le]
  exact Or.inl (by change ¬ 128 ≤ b.toNat; omega)

theorem first_of_isBlank {b : UInt8} (h : isBlank b = true) (t : Text) : first b t = (b.toNat, 0) := by
  have hcode := toNat_of_isBlank h
  have hone : b < 0x80 := UInt8.lt_iff_toNat_lt.mpr (by change b.toNat < 128; omega)
  simp [first, decode?, hone]

theorem isBlankCode_of_isBlank {b : UInt8} (h : isBlank b = true) : isBlankCode b.toNat = true := by
  rcases toNat_of_isBlank h with hcode | hcode
  · rw [hcode]
    rfl
  · simp [isBlankCode, hcode]

/-- White space in the ASCII sense is white space. -/
theorem isBlankCode_of_mem_scalars {w : Text} (hw : ∀ b ∈ w, isBlank b = true) :
    ∀ x ∈ scalars w, isBlankCode x.code = true := by
  induction w with
  | nil => exact fun x hx => absurd hx List.not_mem_nil
  | cons b w ih =>
    have hb := hw b List.mem_cons_self
    rw [scalars_cons, first_of_isBlank hb]
    intro x hx
    rcases List.mem_cons.mp hx with rfl | hx
    · exact isBlankCode_of_isBlank hb
    · exact ih (fun c hc => hw c (List.mem_cons_of_mem b hc)) x hx

/-- White space behind a text does not matter. -/
theorem trimEndWide_append {w : Text} (hw : ∀ b ∈ w, isBlank b = true) (t : Text) :
    trimEndWide (t ++ w) = trimEndWide t := by
  have hstop : Stops w := fun b hb => not_isTail_of_isBlank (hw b (List.mem_of_mem_head? hb))
  rw [trimEndWide, scalars_append hstop, List.reverse_append,
    List.dropWhile_append_of_pos fun x hx => isBlankCode_of_mem_scalars hw x (List.mem_reverse.mp hx)]
  rfl

/-- The characters of a text are those that trimming leaves, and white space. -/
theorem exists_scalars_eq_append (t : Text) : ∃ rest, scalars t =
    (t.scalars.reverse.dropWhile fun s => isBlankCode s.code).reverse ++ rest := by
  refine ⟨(t.scalars.reverse.takeWhile fun s => isBlankCode s.code).reverse, ?_⟩
  rw [← List.reverse_append, List.takeWhile_append_dropWhile, List.reverse_reverse]

theorem trimEndWide_isPrefix (t : Text) : trimEndWide t <+: t := by
  obtain ⟨rest, hrest⟩ := exists_scalars_eq_append t
  refine ⟨rest.flatMap Scalar.bytes, ?_⟩
  rw [trimEndWide, ← List.flatMap_append, ← hrest, flatMap_bytes_scalars]

/-- **What trimming leaves is left again**, also with white space in the ASCII sense behind it. -/
theorem trimEndWide_append_blank (t : Text) {w : Text} (hw : ∀ b ∈ w, isBlank b = true) :
    trimEndWide (trimEndWide t ++ w) = trimEndWide t := by
  obtain ⟨rest, hrest⟩ := exists_scalars_eq_append t
  have hscalars := scalars_of_append hrest
  rw [trimEndWide_append hw, trimEndWide, trimEndWide, hscalars, List.reverse_reverse,
    List.dropWhile_idempotent]

end Text

end Stopwatch
