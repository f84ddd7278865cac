import Mathlib
import Stopwatch.Grammar.Lexer
import Stopwatch.Proofs.Items

/-!
# The tokens of a scanned source

Tokens and comments stand one behind the other in the source, and the pieces of a string lie between its
quotes. A token is never empty: scanning would not get past it.

* `Lexer.scan_ordered`: that, for any source that is scanned to its end.
-/

namespace Stopwatch

/-- Kinds of leaves that can be seen, and that no function has. -/
def Cst.isTokenKind (kind : String) : Bool := !isTerminatorKind kind && !Load.isFunctionKind kind

/-- The pieces of a string are visible, and have room between its quotes. -/
structure Token.Sound (t : Token) : Prop where
  room : t.start + 1 + (t.pieces.map Prod.snd).sum ≤ t.stop
  pieces : ∀ p ∈ t.pieces, Cst.isTokenKind p.1 = true ∧ 0 < p.2
  literal : ∀ kind, t.lexeme = .literal kind → Cst.isTokenKind kind = true

theorem Token.Sound.lt {t : Token} (h : t.Sound) : t.start < t.stop := by
  have := h.room
  omega

namespace Lexer

/-! ## Single tokens -/

/-- The pieces of a string that are told apart so far. -/
def PiecesSound (ps : List (String × Nat)) : Prop := ∀ p ∈ ps, Cst.isTokenKind p.1 = true ∧ 0 < p.2

theorem isTokenKind_content : Cst.isTokenKind "interpreted_string_literal_content" = true := by decide

theorem isTokenKind_escape : Cst.isTokenKind "escape_sequence" = true := by decide

theorem isTokenKind_raw : Cst.isTokenKind "raw_string_literal_content" = true := by decide

theorem piecesSound_addContent {ps : List (String × Nat)} (h : PiecesSound ps) :
    PiecesSound (addContent ps) ∧ ((addContent ps).map Prod.snd).sum = (ps.map Prod.snd).sum + 1 := by
  unfold addContent
  split
  · next n ps =>
    obtain ⟨-, hps⟩ := List.forall_mem_cons.mp h
    refine ⟨List.forall_mem_cons.mpr ⟨⟨isTokenKind_content, Nat.succ_pos n⟩, hps⟩, ?_⟩
    simp only [List.map_cons, List.sum_cons]
    omega
  · refine ⟨List.forall_mem_cons.mpr ⟨⟨isTokenKind_content, Nat.one_pos⟩, h⟩, ?_⟩
    simp only [List.map_cons, List.sum_cons]
    omega

/-- The pieces of a string add up to its length. -/
theorem stringPieces_sound {n len len' : Nat} {ps ps' : List (String × Nat)} {t : Text}
    (h : stringPieces n ps len t = some (ps', len')) (hps : PiecesSound ps)
    (hlen : (ps.map Prod.snd).sum = len) : PiecesSound ps' ∧ (ps'.map Prod.snd).sum = len' := by
  induction n generalizing ps len t with
  | zero => simp [stringPieces] at h
  | succ n ih =>
    cases t with
    | nil => simp [stringPieces] at h
    | cons b t =>
      rw [stringPieces] at h
      split_ifs at h with hquote hend hescape
      · obtain ⟨rfl, rfl⟩ := Prod.mk.inj (Option.some.inj h)
        exact ⟨fun p hp => hps p (List.mem_reverse.mp hp), by simpa using hlen⟩
      · obtain ⟨e, -, hrest⟩ := Option.bind_eq_some_iff.mp h
        refine ih hrest (List.forall_mem_cons.mpr ⟨⟨isTokenKind_escape, Nat.succ_pos e⟩, hps⟩) ?_
        simp only [List.map_cons, List.sum_cons]
        omega
      · obtain ⟨hadd, hsum⟩ := piecesSound_addContent hps
        exact ih h hadd (by omega)

/-- A better number takes the place of the best so far, or it does not. -/
theorem isTokenKind_of_foldl {t : Text} (found : List (String × Option Text))
    (best : Option (String × Nat)) (hfound : ∀ p ∈ found, Cst.isTokenKind p.1 = true)
    (hbest : ∀ p ∈ best, Cst.isTokenKind p.1 = true) :
    ∀ p ∈ found.foldl (fun best (kind, rest) =>
      match rest with
      | none => best
      | some r =>
        let len := t.length - r.length
        match best with
        | some (_, n) => if n < len then some (kind, len) else best
        | none => some (kind, len)) best, Cst.isTokenKind p.1 = true := by
  induction found generalizing best with
  | nil => exact hbest
  | cons q found ih =>
    obtain ⟨kind, rest⟩ := q
    obtain ⟨hkind, hfound⟩ := List.forall_mem_cons.mp hfound
    have hnew : ∀ len : Nat, ∀ p ∈ some (kind, len), Cst.isTokenKind p.1 = true := by
      rintro len p ⟨⟩
      exact hkind
    rw [List.foldl_cons]
    refine ih _ hfound ?_
    cases rest with
    | none => exact hbest
    | some r =>
      cases best with
      | none => exact hnew _
      | some b =>
        by_cases hlt : b.2 < t.length - r.length
        · simpa only [if_pos hlt] using hnew _
        · simpa only [if_neg hlt] using hbest

theorem isTokenKind_of_scan {t : Text} {kind : String} {n : Nat} (h : Numeral.scan t = some (kind, n)) :
    Cst.isTokenKind kind = true := by
  refine isTokenKind_of_foldl [("int_literal", Numeral.integer t), ("float_literal", Numeral.floating t),
    ("imaginary_literal", Numeral.imaginary t)] none ?_ (by simp) (kind, n) h
  simp only [List.forall_mem_cons]
  exact ⟨by decide, by decide, by decide, by simp⟩

theorem ne_literal_of_name_or_operator {t : Text} {l : Lexeme} {n : Nat}
    (h : (name? t).or (operator? t) = some (l, n)) (kind : String) : l ≠ .literal kind := by
  rintro rfl
  rcases Option.or_eq_some_iff.mp h with hname | ⟨-, hop⟩
  · unfold name? at hname
    split at hname
    · cases hname
    · split at hname
      · simp only at hname
        split at hname <;> cases hname
      · cases hname
  · obtain ⟨o, -, heq⟩ := Option.map_eq_some_iff.mp hop
    cases heq

/-- A token that is not empty is a sound one. -/
theorem sound_of_token? {t : Text} {lexeme : Lexeme} {len offset : Nat} {pieces : List (String × Nat)}
    {newRow : Bool} (h : token? t = some (lexeme, len, pieces)) (hlen : 0 < len) :
    Token.Sound ⟨lexeme, offset, offset + len, newRow, pieces⟩ := by
  have hplain : ∀ {l : Lexeme}, (∀ kind, l ≠ .literal kind) →
      Token.Sound ⟨l, offset, offset + len, newRow, []⟩ := fun hl =>
    ⟨by simpa using Nat.succ_le_of_lt hlen, by simp, fun kind hkind => absurd hkind (hl kind)⟩
  unfold token? at h
  split at h
  · cases h
  · next b r =>
    split_ifs at h with hzero hstring hraw hrune
    · obtain ⟨rfl, rfl, rfl⟩ := by simpa using h
      exact hplain (by simp)
    · obtain ⟨⟨ps, n⟩, hps, heq⟩ := Option.map_eq_some_iff.mp h
      obtain ⟨rfl, rfl, rfl⟩ := by simpa using heq
      obtain ⟨hsound, hsum⟩ := stringPieces_sound hps (by simp [PiecesSound]) rfl
      exact ⟨by simp only; omega, hsound, by simp⟩
    · obtain ⟨n, -, heq⟩ := Option.map_eq_some_iff.mp h
      obtain ⟨rfl, rfl, rfl⟩ := by simpa using heq
      by_cases hn : n = 0
      · exact ⟨by simp [hn], by simp [hn], by simp⟩
      · exact ⟨by simp [hn]; omega, by simp [hn, isTokenKind_raw, Nat.pos_of_ne_zero hn], by simp⟩
    · obtain ⟨n, -, heq⟩ := Option.map_eq_some_iff.mp h
      obtain ⟨rfl, rfl, rfl⟩ := by simpa using heq
      refine ⟨by simp, by simp, fun kind hkind => ?_⟩
      obtain rfl := Lexeme.literal.inj hkind
      decide
    · split at h
      · next kind n hscan =>
        obtain ⟨rfl, rfl, rfl⟩ := by simpa using h
        refine ⟨by simpa using Nat.succ_le_of_lt hlen, by simp, fun kind' hkind => ?_⟩
        obtain rfl := Lexeme.literal.inj hkind
        exact isTokenKind_of_scan hscan
      · obtain ⟨⟨l, n⟩, hl, heq⟩ := Option.map_eq_some_iff.mp h
        obtain ⟨rfl, rfl, rfl⟩ := by simpa using heq
        exact hplain (ne_literal_of_name_or_operator hl)

/-! ## Scanning -/

/-- Tokens and comments stand one behind the other, from `offset` on. -/
structure Scanned.Ordered (offset : Nat) (s : Scanned) : Prop where
  sound : ∀ t ∈ s.tokens, t.Sound
  tokens : ∀ t ∈ s.tokens, offset ≤ t.start
  comments : ∀ c ∈ s.comments, offset ≤ c.start ∧ c.start < c.stop
  ordered : s.tokens.Pairwise fun a b => a.stop ≤ b.start
  apart : ∀ t ∈ s.tokens, ∀ c ∈ s.comments, t.stop ≤ c.start ∨ c.stop ≤ t.start

namespace Scanned.Ordered

variable {s : Scanned} {offset next : Nat}

theorem mono (h : Scanned.Ordered next s) (hle : offset ≤ next) : Scanned.Ordered offset s where
  sound := h.sound
  tokens t ht := hle.trans (h.tokens t ht)
  comments c hc := ⟨hle.trans (h.comments c hc).1, (h.comments c hc).2⟩
  ordered := h.ordered
  apart := h.apart

/-- A comment in front. -/
theorem comment (h : Scanned.Ordered next s) (hlt : offset < next) :
    Scanned.Ordered offset { s with comments := ⟨offset, next⟩ :: s.comments } where
  sound := h.sound
  tokens := (h.mono hlt.le).tokens
  comments := List.forall_mem_cons.mpr ⟨⟨le_refl offset, hlt⟩, (h.mono hlt.le).comments⟩
  ordered := h.ordered
  apart t ht := List.forall_mem_cons.mpr ⟨Or.inr (h.tokens t ht), h.apart t ht⟩

/-- A token in front. -/
theorem token {t : Token} (h : Scanned.Ordered t.stop s) (ht : t.Sound) :
    Scanned.Ordered t.start { s with tokens := t :: s.tokens } where
  sound := List.forall_mem_cons.mpr ⟨ht, h.sound⟩
  tokens := List.forall_mem_cons.mpr ⟨le_refl _, (h.mono (ht.lt).le).tokens⟩
  comments := (h.mono (ht.lt).le).comments
  ordered := List.pairwise_cons.mpr ⟨h.tokens, h.ordered⟩
  apart := List.forall_mem_cons.mpr ⟨fun c hc => Or.inl (h.comments c hc).1, h.apart⟩

end Scanned.Ordered

theorem length_of_comment? {t : Text} {len : Nat} (h : comment? t = some (some len)) : 0 < len := by
  unfold comment? at h
  split at h
  · simp only [Option.some.injEq] at h
    omega
  · simp only [Option.some.injEq, Option.map_eq_some_iff] at h
    obtain ⟨n, -, rfl⟩ := h
    omega
  · cases h

/-- At an empty token scanning stays where it is until its steps are used up. -/
theorem scanFrom_of_empty {b : UInt8} {t : Text} {lexeme : Lexeme} {pieces : List (String × Nat)}
    (hblank : Text.isBlank b = false) (hcomment : comment? (b :: t) = none)
    (htoken : token? (b :: t) = some (lexeme, 0, pieces)) (n offset : Nat) (newRow : Bool) :
    scanFrom n offset newRow (b :: t) = none := by
  induction n generalizing offset newRow with
  | zero => rfl
  | succ n ih => simp [scanFrom, hblank, hcomment, htoken, ih]

theorem scanFrom_ordered {n offset : Nat} {newRow : Bool} {t : Text} {s : Scanned}
    (h : scanFrom n offset newRow t = some s) : Scanned.Ordered offset s := by
  induction n generalizing offset newRow t s with
  | zero =>
    cases t with
    | nil =>
      obtain rfl := Option.some.inj h
      exact ⟨by simp, by simp, by simp, .nil, by simp⟩
    | cons b t => cases h
  | succ n ih =>
    cases t with
    | nil =>
      obtain rfl := Option.some.inj h
      exact ⟨by simp, by simp, by simp, .nil, by simp⟩
    | cons b t =>
      rw [scanFrom] at h
      cases hblank : Text.isBlank b with
      | true =>
        rw [hblank, if_pos rfl] at h
        exact (ih h).mono (Nat.le_succ offset)
      | false =>
        rw [hblank, if_neg (by simp)] at h
        cases hcomment : comment? (b :: t) with
        | some o =>
          cases o with
          | none => simp [hcomment] at h
          | some len =>
            simp only [hcomment] at h
            obtain ⟨r, hr, rfl⟩ := Option.map_eq_some_iff.mp h
            exact (ih hr).comment (Nat.lt_add_of_pos_right (length_of_comment? hcomment))
        | none =>
          simp only [hcomment] at h
          obtain ⟨⟨lexeme, len, pieces⟩, htoken, hrest⟩ := Option.bind_eq_some_iff.mp h
          obtain ⟨r, hr, rfl⟩ := Option.map_eq_some_iff.mp hrest
          have hlen : 0 < len := by
            rcases Nat.eq_zero_or_pos len with rfl | hpos
            · rw [List.drop_zero, scanFrom_of_empty hblank hcomment htoken] at hr
              cases hr
            · exact hpos
          exact Scanned.Ordered.token (t := ⟨lexeme, offset, offset + len, newRow, pieces⟩) (ih hr)
            (sound_of_token? htoken hlen)

/-- **The tokens and the comments of a source** stand one behind the other. -/
theorem scan_ordered {source : Text} {s : Scanned} (h : scan source = some s) : Scanned.Ordered 0 s := by
  unfold scan at h
  split at h
  · exact (scanFrom_ordered h).mono (Nat.zero_le 3)
  · exact scanFrom_ordered h

end Lexer

end Stopwatch
