import Mathlib
import Stopwatch.Timing.Names

/-!
# Fresh names over whole runs

The search for a free name looks at one candidate more than there are names taken. The candidates of a
base are pairwise different (`candidate_injective`: decimal numerals are), so by counting one of them is
free, and the search cannot end empty-handed.

Results:
* `fresh_isFirstFree`: what `Names.fresh` returns is the first free name of the sequence base, base2,
  base3, …
* `allocateAll_isFirstFree`: the same for every call of a run, where the names handed out earlier in the
  run count as taken.
* `allocateAll_fresh`, `allocateAll_nodup`: no name of a run was taken before it, and none comes twice.
* `isIdentifier_allocateAll`: every name is an ASCII identifier, whatever was proposed.
-/

namespace Stopwatch

/-! ## Numerals -/

theorem utf8_toByteArray (s : String) : (utf8 s).toByteArray = s.toByteArray :=
  String.utf8Encode_toList

theorem utf8_injective {s t : String} (h : utf8 s = utf8 t) : s = t := by
  rw [← String.toByteArray_inj, ← utf8_toByteArray, ← utf8_toByteArray, h]

theorem Text.decimal_injective {m n : Nat} (h : Text.decimal m = Text.decimal n) : m = n :=
  Nat.repr_injective (utf8_injective h)

/-- A decimal digit is one byte, and that byte is a digit. -/
theorem utf8EncodeChar_of_isDigit {c : Char} (h : c.isDigit = true) :
    ∃ b, String.utf8EncodeChar c = [b] ∧ Text.isDigit b = true := by
  simp only [Char.isDigit, Bool.and_eq_true, decide_eq_true_eq, ge_iff_le, UInt32.le_iff_toNat_le] at h
  have hlo : 48 ≤ c.val.toNat := h.1
  have hhi : c.val.toNat ≤ 57 := h.2
  refine ⟨UInt8.ofNat c.val.toNat, ?_, ?_⟩
  · unfold String.utf8EncodeChar
    exact if_pos (by omega)
  · have hmod : c.val.toNat % 2 ^ 8 = c.val.toNat := Nat.mod_eq_of_lt (by omega)
    simp only [Text.isDigit, Bool.and_eq_true, decide_eq_true_eq, UInt8.le_iff_toNat_le,
      UInt8.toNat_ofNat', hmod]
    exact ⟨hlo, hhi⟩

theorem Text.isDigit_of_mem_decimal {n : Nat} {b : UInt8} (h : b ∈ Text.decimal n) :
    Text.isDigit b = true := by
  obtain ⟨c, hc, hb⟩ := List.mem_flatMap.mp h
  have hrepr : (toString n).toList = Nat.toDigits 10 n := String.toList_ofList
  rw [hrepr] at hc
  obtain ⟨d, hd, hdigit⟩ := utf8EncodeChar_of_isDigit
    (Nat.isDigit_of_mem_toDigits (by decide) (by decide) hc)
  rw [hd, List.mem_singleton] at hb
  rw [hb]
  exact hdigit

namespace Text

theorem isNameByte_of_isDigit {b : UInt8} (h : isDigit b = true) : isNameByte b = true := by
  simp [isNameByte, h]

/-- An ASCII identifier: a letter or the underscore, then letters, digits and underscores. -/
def IsIdentifier (t : Text) : Prop :=
  ∃ b rest, t = b :: rest ∧ (isLetter b = true ∨ b = 95) ∧ ∀ c ∈ rest, isNameByte c = true

theorem IsIdentifier.newline_notMem {t : Text} (h : IsIdentifier t) : newline ∉ t := by
  obtain ⟨b, rest, rfl, hb, hrest⟩ := h
  intro hmem
  rcases List.mem_cons.mp hmem with rfl | hmem
  · exact absurd hb (by decide)
  · exact absurd (hrest newline hmem) (by decide)

theorem IsIdentifier.append {t u : Text} (ht : IsIdentifier t) (hu : ∀ c ∈ u, isNameByte c = true) :
    IsIdentifier (t ++ u) := by
  obtain ⟨b, rest, rfl, hb, hrest⟩ := ht
  refine ⟨b, rest ++ u, rfl, hb, fun c hc => ?_⟩
  rcases List.mem_append.mp hc with h | h
  · exact hrest c h
  · exact hu c h

end Text

namespace Names

/-! ## Candidates -/

theorem isIdentifier_fallback : fallback.IsIdentifier :=
  ⟨95, utf8 "_start", by decide +kernel, Or.inr rfl, by decide +kernel⟩

/-- A proposal becomes an ASCII identifier. -/
theorem isIdentifier_normalize (proposed : Text) : (normalize proposed).IsIdentifier := by
  have hname : ∀ c ∈ proposed.filter Text.isNameByte, Text.isNameByte c = true := fun c hc =>
    (List.mem_filter.mp hc).2
  unfold normalize
  split
  · exact isIdentifier_fallback
  · rename_i b t heq
    rw [heq] at hname
    split
    · exact ⟨95, b :: t, rfl, Or.inr rfl, hname⟩
    · rename_i hdigit
      refine ⟨b, t, rfl, ?_, fun c hc => hname c (List.mem_cons_of_mem b hc)⟩
      have hb := hname b List.mem_cons_self
      simp only [Text.isNameByte, Bool.or_eq_true, beq_iff_eq] at hb
      rcases hb with (hletter | hd) | hunder
      · exact Or.inl hletter
      · exact absurd hd hdigit
      · exact Or.inr hunder

theorem isIdentifier_candidate {base : Text} (h : base.IsIdentifier) (k : Nat) :
    (candidate base k).IsIdentifier := by
  cases k with
  | zero => exact h
  | succ k => exact h.append fun c hc => Text.isNameByte_of_isDigit (Text.isDigit_of_mem_decimal hc)

/-- The candidates of a base are pairwise different. -/
theorem candidate_injective (base : Text) : Function.Injective (candidate base) := by
  -- A numeral is never empty, so the bare base differs from every numbered one.
  have hne : ∀ k, base ≠ base ++ Text.decimal (k + 2) := by
    intro k h
    have hnil : Text.decimal (k + 2) = [] := List.self_eq_append_right.mp h
    have hzero : Text.decimal (k + 2) = utf8 "" := hnil
    exact absurd (utf8_injective hzero) (Nat.repr_ne_empty)
  intro j k h
  cases j with
  | zero =>
    cases k with
    | zero => rfl
    | succ k => exact absurd h (hne k)
  | succ j =>
    cases k with
    | zero => exact absurd h.symm (hne j)
    | succ k =>
      have := Text.decimal_injective (List.append_cancel_left h)
      omega

/-! ## One name -/

/-- `name` is the first name of the sequence `base`, `base2`, `base3`, … that is not taken. -/
def IsFirstFree (taken : Text → Prop) (base name : Text) : Prop :=
  ∃ k, name = candidate base k ∧ ¬ taken name ∧ ∀ j < k, taken (candidate base j)

/-- Among one more candidate than there are names taken one is free. -/
theorem exists_candidate_free (taken : List Text) (base : Text) :
    ∃ k < taken.length + 1, candidate base k ∉ taken := by
  by_contra hall
  push Not at hall
  have hnodup : ((List.range (taken.length + 1)).map (candidate base)).Nodup :=
    List.nodup_range.map (candidate_injective base)
  have hsub : (List.range (taken.length + 1)).map (candidate base) ⊆ taken := by
    intro x hx
    obtain ⟨k, hk, rfl⟩ := List.mem_map.mp hx
    exact hall k (List.mem_range.mp hk)
  have hlen := (List.subperm_of_subset hnodup hsub).length_le
  rw [List.length_map, List.length_range] at hlen
  omega

/-- **The search for a free name ends**, with the first candidate that is free. -/
theorem fresh_isFirstFree (taken : List Text) (base : Text) :
    IsFirstFree (· ∈ taken) base (fresh taken base) := by
  obtain ⟨k, hk, hfree, hfirst⟩ : ∃ k < taken.length + 1, candidate base k ∉ taken ∧
      ∀ j < k, candidate base j ∈ taken := by
    obtain ⟨hlt, hfree⟩ := Nat.find_spec (exists_candidate_free taken base)
    refine ⟨Nat.find (exists_candidate_free taken base), hlt, hfree, fun j hj => ?_⟩
    by_contra hnot
    exact Nat.find_min (exists_candidate_free taken base) hj ⟨hj.trans hlt, hnot⟩
  have hfind : (List.range (taken.length + 1)).find?
      ((fun c => !taken.contains c) ∘ candidate base) = some k := by
    rw [List.find?_range_eq_some]
    refine ⟨by simpa using hfree, List.mem_range.mpr hk, fun j hj => by simpa using hfirst j hj⟩
  have hfresh : fresh taken base = candidate base k := by
    rw [fresh, List.find?_map, hfind]
    rfl
  rw [hfresh]
  exact ⟨k, rfl, hfree, hfirst⟩

theorem fresh_notMem (taken : List Text) (base : Text) : fresh taken base ∉ taken := by
  obtain ⟨_, _, hfree, _⟩ := fresh_isFirstFree taken base
  exact hfree

theorem isIdentifier_fresh (taken : List Text) {base : Text} (h : base.IsIdentifier) :
    (fresh taken base).IsIdentifier := by
  obtain ⟨k, hk, _, _⟩ := fresh_isFirstFree taken base
  rw [hk]
  exact isIdentifier_candidate h k

/-! ## A run of calls -/

theorem allocateAll_cons (names : Names) (p : Text) (ps : List Text) :
    names.allocateAll (p :: ps) =
      ((names.allocate p).1 :: ((names.allocate p).2.allocateAll ps).1,
        ((names.allocate p).2.allocateAll ps).2) := rfl

theorem length_allocateAll (names : Names) (ps : List Text) :
    (names.allocateAll ps).1.length = ps.length := by
  induction ps generalizing names with
  | nil => rfl
  | cons p ps ih => rw [allocateAll_cons, List.length_cons, ih, List.length_cons]

/-- No name of a run was taken before the run. -/
theorem allocateAll_fresh (names : Names) (ps : List Text) :
    ∀ x ∈ (names.allocateAll ps).1, x ∉ names.taken := by
  induction ps generalizing names with
  | nil => intro x hx; exact absurd hx List.not_mem_nil
  | cons p ps ih =>
    intro x hx
    rw [allocateAll_cons] at hx
    rcases List.mem_cons.mp hx with rfl | hx
    · exact fresh_notMem names.taken (normalize p)
    · exact fun h => ih _ x hx (List.mem_cons_of_mem _ h)

/-- No name comes twice in a run. -/
theorem allocateAll_nodup (names : Names) (ps : List Text) : (names.allocateAll ps).1.Nodup := by
  induction ps generalizing names with
  | nil => exact List.nodup_nil
  | cons p ps ih =>
    rw [allocateAll_cons]
    refine List.nodup_cons.mpr ⟨fun h => ?_, ih _⟩
    exact allocateAll_fresh _ ps _ h List.mem_cons_self

/-- After a run, what was taken before and what the run handed out is taken. -/
theorem mem_taken_allocateAll (names : Names) (ps : List Text) (x : Text) :
    x ∈ (names.allocateAll ps).2.taken ↔ x ∈ (names.allocateAll ps).1 ∨ x ∈ names.taken := by
  induction ps generalizing names with
  | nil => simp [allocateAll]
  | cons p ps ih =>
    rw [allocateAll_cons, ih, List.mem_cons]
    have htaken : (names.allocate p).2.taken = (names.allocate p).1 :: names.taken := rfl
    rw [htaken, List.mem_cons]
    tauto

theorem isIdentifier_allocateAll (names : Names) (ps : List Text) :
    ∀ x ∈ (names.allocateAll ps).1, x.IsIdentifier := by
  induction ps generalizing names with
  | nil => intro x hx; exact absurd hx List.not_mem_nil
  | cons p ps ih =>
    intro x hx
    rw [allocateAll_cons] at hx
    rcases List.mem_cons.mp hx with rfl | hx
    · exact isIdentifier_fresh names.taken (isIdentifier_normalize p)
    · exact ih _ x hx

/-- **Each name of a run is the first free one** of its base, where the names of the earlier calls are
taken too. -/
theorem allocateAll_isFirstFree (names : Names) (ps : List Text) (i : Nat) (p : Text)
    (hp : ps[i]? = some p) :
    ∃ name, (names.allocateAll ps).1[i]? = some name ∧
      IsFirstFree (fun x => x ∈ names.taken ∨ x ∈ (names.allocateAll ps).1.take i) (normalize p)
        name := by
  induction ps generalizing names i with
  | nil => exact absurd hp (by simp)
  | cons q qs ih =>
    rw [allocateAll_cons]
    cases i with
    | zero =>
      obtain rfl : q = p := by simpa using hp
      refine ⟨(names.allocate q).1, by simp, ?_⟩
      simpa [allocate] using fresh_isFirstFree names.taken (normalize q)
    | succ i =>
      obtain ⟨name, hname, hfirst⟩ := ih (names.allocate q).2 i (by simpa using hp)
      refine ⟨name, by simpa using hname, ?_⟩
      have hiff : ∀ x, (x ∈ (names.allocate q).2.taken ∨
            x ∈ ((names.allocate q).2.allocateAll qs).1.take i) ↔
          (x ∈ names.taken ∨
            x ∈ ((names.allocate q).1 :: ((names.allocate q).2.allocateAll qs).1).take (i + 1)) := by
        intro x
        simp only [allocate, List.mem_cons, List.take_succ_cons]
        tauto
      simpa only [hiff] using hfirst

end Names

end Stopwatch
