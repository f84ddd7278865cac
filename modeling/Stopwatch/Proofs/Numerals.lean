import Mathlib
import Stopwatch.Settings.Normal

/-!
# Numerals

What passes for a numeral, digits in the wide sense between white space, is more than what denotes a number:
`Settings.Denotes` asks for decimal digits, not too many, and for white space that a numeral may have, while
`Settings.Passes` does not.

* `Settings.numeral_eq_ok_iff`: `Settings.numeral` gives just the numbers that strings denote.
* `Settings.looksNumeric_iff`: what passes for a numeral. `Settings.Denotes.passes`: all that denotes a number.
-/

namespace Stopwatch

namespace Text

/-! ## White space and digits -/

/-- White space that may surround a numeral: the four information separators do not count there. -/
def isNumeralSpace (c : Char) : Bool := isBlankChar c && !(28 ≤ c.toNat && c.toNat ≤ 31)

/-- White space is no digit, not even in the wide sense. -/
theorem isDigitLike_of_isBlankCode {n : Nat} (h : isBlankCode n = true) : isDigitLike n = false := by
  simp only [isBlankCode, Bool.or_eq_true, Bool.and_eq_true, decide_eq_true_eq, beq_iff_eq] at h
  rcases h with (((((((((hlow | hlow) | rfl) | rfl) | rfl) | hspace) | rfl) | rfl) | rfl) | rfl) | rfl
  all_goals try rfl
  · obtain ⟨hlo, hhi⟩ := hlow
    interval_cases n <;> rfl
  · obtain ⟨hlo, hhi⟩ := hlow
    interval_cases n <;> rfl
  · obtain ⟨hlo, hhi⟩ := hspace
    interval_cases n <;> rfl

theorem isSome_rangeStart? (rs : List (Nat × Nat)) (n : Nat) : (rangeStart? rs n).isSome = inRanges rs n := by
  induction rs with
  | nil => rfl
  | cons r rs ih =>
    obtain ⟨lo, hi⟩ := r
    unfold rangeStart? inRanges
    split_ifs <;> simp_all

/-- Decimal digits are digits in the wide sense. -/
theorem isDigitLike_of_digitValue? {n d : Nat} (h : digitValue? n = some d) : isDigitLike n = true := by
  have hsome : (rangeStart? decimalRanges n).isSome = true := by
    rw [← Option.isSome_map (f := fun lo => (n - lo) % 10)]
    exact Option.isSome_of_eq_some h
  rw [isDigitLike, ← isSome_rangeStart?, hsome, Bool.true_or]

theorem isBlankChar_of_isNumeralSpace {c : Char} (h : isNumeralSpace c = true) : isBlankChar c = true :=
  (Bool.and_eq_true_iff.mp h).1

/-! ## Trimming -/

/-- Trimming takes white space away from either end. -/
theorem exists_eq_strip (s : String) : ∃ front back, s.toList = front ++ strip s ++ back ∧
    (∀ c ∈ front, isBlankChar c = true) ∧ ∀ c ∈ back, isBlankChar c = true := by
  refine ⟨s.toList.takeWhile isBlankChar, ((s.toList.dropWhile isBlankChar).reverse.takeWhile isBlankChar).reverse,
    ?_, fun c hc => List.mem_takeWhile_imp hc, fun c hc => List.mem_takeWhile_imp (List.mem_reverse.mp hc)⟩
  rw [strip, List.append_assoc, ← List.reverse_append, List.takeWhile_append_dropWhile, List.reverse_reverse,
    List.takeWhile_append_dropWhile]

theorem dropWhile_append_of_head {p : Char → Bool} {front rest : List Char} (hfront : ∀ c ∈ front, p c = true)
    (hrest : ∀ c ∈ rest.head?, p c = false) : (front ++ rest).dropWhile p = rest := by
  rw [List.dropWhile_append_of_pos hfront]
  cases rest with
  | nil => rfl
  | cons c rest => rw [List.dropWhile_cons_of_neg (by simp [hrest c rfl])]

/-- What is left is all between white space that neither starts nor ends with some. -/
theorem strip_eq {s : String} {front core back : List Char} (h : s.toList = front ++ core ++ back)
    (hfront : ∀ c ∈ front, isBlankChar c = true) (hback : ∀ c ∈ back, isBlankChar c = true)
    (hcore : ∀ c ∈ core, isBlankChar c = false) (hne : core ≠ []) : strip s = core := by
  have hhead : ∀ c ∈ (core ++ back).head?, isBlankChar c = false := fun c hc => by
    rw [List.head?_append_of_ne_nil _ hne] at hc
    exact hcore c (List.mem_of_head? hc)
  have hlast : ∀ c ∈ core.reverse.head?, isBlankChar c = false := fun c hc =>
    hcore c (List.mem_reverse.mp (List.mem_of_head? hc))
  rw [strip, h, List.append_assoc, dropWhile_append_of_head hfront hhead, List.reverse_append,
    dropWhile_append_of_head (fun c hc => hback c (List.mem_reverse.mp hc)) hlast, List.reverse_reverse]

/-- A string has something in it besides white space. -/
def HasText (s : String) : Prop := ∃ c ∈ s.toList, isBlankChar c = false

theorem strip_ne_nil_iff {s : String} : strip s ≠ [] ↔ HasText s := by
  constructor
  · rw [Ne, strip, List.reverse_eq_nil_iff, List.dropWhile_eq_nil_iff]
    intro hne
    push Not at hne
    obtain ⟨c, hc, hsolid⟩ := hne
    exact ⟨c, (List.dropWhile_sublist _).subset (List.mem_reverse.mp hc), Bool.not_eq_true _ ▸ hsolid⟩
  · obtain ⟨front, back, hs, hfront, hback⟩ := exists_eq_strip s
    rintro ⟨c, hc, hsolid⟩ hnil
    rw [hs, hnil, List.append_nil] at hc
    rcases List.mem_append.mp hc with hc | hc
    · rw [hfront c hc] at hsolid
      cases hsolid
    · rw [hback c hc] at hsolid
      cases hsolid

end Text

namespace Settings

open Text

/-! ## Denoting numbers -/

/-- A string denotes a number: at most 4300 decimal digits of any scripts, between white space. -/
def Denotes (s : String) (n : Nat) : Prop :=
  ∃ front digits back ds, s.toList = front ++ digits ++ back ∧
    (∀ c ∈ front, isNumeralSpace c = true) ∧ (∀ c ∈ back, isNumeralSpace c = true) ∧
    digits.map (fun c => digitValue? c.toNat) = ds.map some ∧ ds ≠ [] ∧ ds.length ≤ 4300 ∧
    n = Nat.ofDigits 10 ds.reverse

theorem numeralChar_of_eq_digit {c : Char} {d : Nat} :
    NumeralChar.of c = .digit d ↔ digitValue? c.toNat = some d := by
  unfold NumeralChar.of
  cases digitValue? c.toNat with
  | some e => simp
  | none =>
    simp only [reduceCtorEq, iff_false]
    split_ifs <;> simp

theorem numeralChar_of_eq_space {c : Char} : NumeralChar.of c = .space ↔ isNumeralSpace c = true := by
  have hchar : c = ' ' ↔ c.toNat = 32 := ⟨fun h => h ▸ rfl, fun h => Char.toNat_inj.mp h⟩
  unfold NumeralChar.of
  cases hdigit : digitValue? c.toNat with
  | some d =>
    refine iff_of_false (by simp) fun hspace => ?_
    have hblank := isDigitLike_of_isBlankCode (isBlankChar_of_isNumeralSpace hspace)
    rw [isDigitLike_of_digitValue? hdigit] at hblank
    cases hblank
  | none =>
    by_cases hascii : c.toNat < 128
    · simp only [hascii, if_true, isNumeralSpace, isBlankChar, isBlankCode, beq_iff_eq, Bool.or_eq_true,
        Bool.and_eq_true, decide_eq_true_eq, Bool.not_eq_true', Bool.and_eq_false_iff, decide_eq_false_iff_not,
        ite_eq_left_iff, reduceCtorEq, imp_false, not_not, hchar]
      omega
    · have hhigh : ¬ c.toNat ≤ 31 := by omega
      simp [hascii, isNumeralSpace, hhigh]

theorem leadingDigits_append {ds : List Nat} {rest : List NumeralChar} (h : ∀ d, rest.head? ≠ some (.digit d)) :
    leadingDigits (ds.map .digit ++ rest) = ds := by
  induction ds with
  | nil =>
    cases rest with
    | nil => rfl
    | cons c rest =>
      cases c with
      | digit d => exact absurd rfl (h d)
      | space => rfl
      | other => rfl
  | cons d ds ih => rw [List.map_cons, List.cons_append, leadingDigits, ih]

theorem eq_leadingDigits_append (cs : List NumeralChar) :
    cs = (leadingDigits cs).map .digit ++ cs.drop (leadingDigits cs).length := by
  induction cs with
  | nil => rfl
  | cons c cs ih =>
    cases c with
    | digit d =>
      rw [leadingDigits, List.map_cons, List.cons_append, List.length_cons, List.drop_succ_cons, ← ih]
    | space => rfl
    | other => rfl

theorem foldl_eq_ofDigits (ds : List Nat) : ds.foldl (fun n d => n * 10 + d) 0 = Nat.ofDigits 10 ds.reverse := by
  rw [Nat.ofDigits_eq_foldr, List.foldr_reverse]
  congr 1
  funext n d
  simp only [Nat.cast_id]
  omega

theorem map_of_eq_digits {cs : List Char} {ds : List Nat} :
    cs.map NumeralChar.of = ds.map .digit ↔ cs.map (fun c => digitValue? c.toNat) = ds.map some := by
  induction cs generalizing ds with
  | nil => cases ds <;> simp
  | cons c cs ih =>
    cases ds with
    | nil => simp
    | cons d ds => simp only [List.map_cons, List.cons.injEq, numeralChar_of_eq_digit, ih]

theorem head?_map_of {cs : List Char} (h : ∀ c ∈ cs, isNumeralSpace c = true) (d : Nat) :
    (cs.map NumeralChar.of).head? ≠ some (.digit d) := by
  cases cs with
  | nil => simp
  | cons c cs => simp [numeralChar_of_eq_space.mpr (h c List.mem_cons_self)]

/-- The number of a numeral is one that its string denotes. -/
theorem denotes_of_numeral {s : String} {n : Nat} (h : numeral s = .ok n) : Denotes s n := by
  unfold numeral at h
  simp only at h
  generalize hcs : (s.toList.map NumeralChar.of).dropWhile (· == .space) = cs at h
  have hread : s.toList.map NumeralChar.of = (s.toList.map NumeralChar.of).takeWhile (· == .space) ++
      ((leadingDigits cs).map .digit ++ cs.drop (leadingDigits cs).length) := by
    rw [← eq_leadingDigits_append cs, ← hcs, List.takeWhile_append_dropWhile]
  split_ifs at h with hlong hbad
  simp only [Bool.or_eq_true, not_or, List.isEmpty_iff, List.any_eq_true, bne_iff_ne, not_exists, not_and,
    not_not] at hbad
  obtain ⟨front, rest, hs, hfront, hrest⟩ := List.map_eq_append_iff.mp hread
  obtain ⟨digits, back, rfl, hdigits, hback⟩ := List.map_eq_append_iff.mp hrest
  refine ⟨front, digits, back, leadingDigits cs, by rw [hs, List.append_assoc], fun c hc => ?_, fun c hc => ?_,
    map_of_eq_digits.mp hdigits, hbad.1, by omega, ?_⟩
  · have hmem : NumeralChar.of c ∈ (s.toList.map NumeralChar.of).takeWhile fun x => x == .space :=
      hfront ▸ List.mem_map_of_mem hc
    have hspace : (NumeralChar.of c == .space) = true :=
      List.mem_takeWhile_imp (p := fun x : NumeralChar => x == .space) hmem
    exact numeralChar_of_eq_space.mp (beq_iff_eq.mp hspace)
  · exact numeralChar_of_eq_space.mp (hbad.2 _ (hback ▸ List.mem_map_of_mem hc))
  · rw [← foldl_eq_ofDigits]
    exact (Except.ok.inj h).symm

/-- A number that a string denotes is read. -/
theorem numeral_of_denotes {s : String} {n : Nat} (h : Denotes s n) : numeral s = .ok n := by
  obtain ⟨front, digits, back, ds, hs, hfront, hback, hdigits, hne, hlong, rfl⟩ := h
  have hread : s.toList.map NumeralChar.of =
      front.map NumeralChar.of ++ (ds.map .digit ++ back.map NumeralChar.of) := by
    rw [hs, List.append_assoc, List.map_append, List.map_append, map_of_eq_digits.mpr hdigits]
  have hskip : (s.toList.map NumeralChar.of).dropWhile (· == .space) =
      ds.map .digit ++ back.map NumeralChar.of := by
    rw [hread, List.dropWhile_append_of_pos]
    · obtain ⟨d, ds, rfl⟩ := List.exists_cons_of_ne_nil hne
      rfl
    · rintro x hx
      obtain ⟨c, hc, rfl⟩ := List.mem_map.mp hx
      exact beq_iff_eq.mpr (numeralChar_of_eq_space.mpr (hfront c hc))
  have hdone : (back.map NumeralChar.of).any (· != .space) = false := by
    rw [List.any_eq_false]
    rintro x hx
    obtain ⟨c, hc, rfl⟩ := List.mem_map.mp hx
    simp [numeralChar_of_eq_space.mpr (hback c hc)]
  have hrest : (ds.map NumeralChar.digit ++ back.map NumeralChar.of).drop ds.length =
      back.map NumeralChar.of := by
    rw [List.drop_append, List.drop_eq_nil_of_le (by simp), List.length_map, Nat.sub_self]
    rfl
  simp only [numeral, hskip, leadingDigits_append (head?_map_of hback), hrest, hdone, if_neg (Nat.not_lt.mpr hlong),
    List.isEmpty_eq_false_iff.mpr hne, Bool.or_self, Bool.false_eq_true, if_false, foldl_eq_ofDigits]

/-- **The numbers that are read are those that strings denote.** -/
theorem numeral_eq_ok_iff {s : String} {n : Nat} : numeral s = .ok n ↔ Denotes s n :=
  ⟨denotes_of_numeral, numeral_of_denotes⟩

/-! ## Passing for numerals -/

/-- A string passes for a numeral: digits in the wide sense between white space. -/
def Passes (s : String) : Prop :=
  ∃ front core back, s.toList = front ++ core ++ back ∧ (∀ c ∈ front, isBlankChar c = true) ∧
    (∀ c ∈ back, isBlankChar c = true) ∧ core ≠ [] ∧ ∀ c ∈ core, isDigitLike c.toNat = true

theorem looksNumeric_iff {s : String} : looksNumeric s = true ↔ Passes s := by
  constructor
  · intro h
    obtain ⟨front, back, hs, hfront, hback⟩ := exists_eq_strip s
    simp only [looksNumeric, Bool.and_eq_true, Bool.not_eq_true', List.isEmpty_eq_false_iff,
      List.all_eq_true] at h
    exact ⟨front, strip s, back, hs, hfront, hback, h.1, h.2⟩
  · rintro ⟨front, core, back, hs, hfront, hback, hne, hcore⟩
    have hsolid : ∀ c ∈ core, isBlankChar c = false := fun c hc => by
      rw [← Bool.not_eq_true]
      intro hblank
      have hdigit := hcore c hc
      rw [isDigitLike_of_isBlankCode hblank] at hdigit
      cases hdigit
    rw [looksNumeric, strip_eq hs hfront hback hsolid hne]
    simpa [hne] using hcore

/-- What denotes a number passes for a numeral. -/
theorem Denotes.passes {s : String} {n : Nat} (h : Denotes s n) : Passes s := by
  obtain ⟨front, digits, back, ds, hs, hfront, hback, hdigits, hne, -, -⟩ := h
  refine ⟨front, digits, back, hs, fun c hc => isBlankChar_of_isNumeralSpace (hfront c hc),
    fun c hc => isBlankChar_of_isNumeralSpace (hback c hc), ?_, fun c hc => ?_⟩
  · rintro rfl
    exact hne (List.map_eq_nil_iff.mp hdigits.symm)
  · obtain ⟨d, -, hd⟩ := List.mem_map.mp (hdigits ▸ List.mem_map_of_mem hc)
    exact isDigitLike_of_digitValue? hd.symm

end Settings

end Stopwatch
