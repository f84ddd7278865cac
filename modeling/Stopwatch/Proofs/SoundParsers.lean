import Mathlib
import Stopwatch.Proofs.Items
import Stopwatch.Proofs.ParsedTrees

/-!
# What is relied on of a parser

A run reads its sources through a parser that is no part of it. That a source which was loaded can also be
printed rests on two properties of the trees it gives, stated as the fields of `Parser.Sound`. Both say how
nodes begin. They hold of any parser generated from a grammar in which no rule reads nothing, so that a node
begins with its first token, and in which functions begin with a keyword.

* `Cst.Fronted`: a node that begins with its first token.
* `Cst.parse_sound`: the parser that the program runs with is sound.
-/

namespace Stopwatch

namespace Cst

/-- A node begins with the first of its visible tokens, and none of them stands before it. -/
structure Fronted (c : Cst) : Prop where
  first : ∀ p, ∃ l, (c.leaves p).head? = some l ∧ l.start = c.start
  behind : ∀ p, ∀ l ∈ c.leaves p, c.start ≤ l.start ∧ l.start ≤ l.stop

/-- What a function begins with has a visible token and is over before the body. -/
def Headed (c : Cst) : Prop :=
  ∃ head rest, c.children = head :: rest ∧ head.leaves c.kind ≠ [] ∧
    ∀ b, c.childByField? "body" = some b → head.stop ≤ b.start

end Cst

/-- The trees of a parser for sources in which it finds no error. -/
structure Parser.Sound (parse : Parser) : Prop where
  /-- The named nodes below the root begin with a token. -/
  fronted : ∀ text, (parse text).hasError = false → ∀ d ∈ (parse text).namedChildren,
    ∀ c : Cst, c.Within d → c.info.named = true → c.Fronted
  /-- Functions begin with something other than their body. -/
  headed : ∀ text, (parse text).hasError = false → ∀ c ∈ (parse text).namedChildren,
    Load.isFunctionKind c.kind = true → c.Headed

/-! ## The parser of the program -/

namespace Cst

variable {P : CstInfo → Prop}

theorem not_isMark_of_named {c : Cst} (h : c.info.named = true) : ¬ c.IsMark := fun hmark => by
  simp [hmark.2] at h

/-- Below an anchored node, only marks are not. -/
theorem Anchored.child {c d : Cst} (h : c.Anchored P) (hd : d ∈ c.children) (hmark : ¬ d.IsMark) :
    d.Anchored P := by
  cases h with
  | leaf => cases hd
  | node hhead _ _ _ _ _ hrest =>
    rcases List.mem_cons.mp hd with rfl | hd
    · exact hhead
    · exact hrest d hd hmark

/-- At any depth. -/
theorem Anchored.within {c d : Cst} (h : c.Anchored P) (hd : d.Within c) (hmark : ¬ d.IsMark) :
    d.Anchored P := by
  induction hd with
  | self => exact h
  | @child i cs e he hwithin ih =>
    -- A node with something below it is no mark.
    have hparent : ¬ e.IsMark := fun hleaf => by
      cases hwithin with
      | self => exact hmark hleaf
      | child hmem => exact absurd hleaf.1 (List.ne_nil_of_mem hmem)
    exact ih (h.child he hparent)

theorem Anchored.fronted {c : Cst} (h : c.Anchored P) : c.Fronted :=
  ⟨fun p => (h.leaves p).1, fun p => (h.leaves p).2⟩

/-- The body of a function is behind the first of its tokens. -/
theorem Anchored.headed {c : Cst} (h : c.Anchored P) (hkind : Load.isFunctionKind c.kind = true) : c.Headed := by
  cases h with
  | leaf htoken =>
    simp only [isTokenKind, Bool.and_eq_true, Bool.not_eq_true'] at htoken
    exact absurd hkind (by rw [kind, info, htoken.2]; simp)
  | @node i c cs hhead _ hfield _ hbody _ _ =>
    obtain ⟨⟨l, hl, -⟩, -⟩ := hhead.leaves i.kind
    refine ⟨c, cs, rfl, fun hnil => ?_, fun b hb => ?_⟩
    · have hnone : c.leaves i.kind = [] := hnil
      rw [hnone] at hl
      cases hl
    · have hrole : b.info.field = some "body" := by simpa using List.find?_some hb
      have hmem : b ∈ c :: cs := List.mem_of_find?_eq_some hb
      exact hbody b ((List.mem_cons.mp hmem).resolve_left fun heq => hfield (heq ▸ hrole)) hrole

/-- **The program runs with a sound parser.** -/
theorem parse_sound : Parser.Sound parse where
  fronted := by
    intro text _ d hd c hc hnamed
    obtain ⟨hmem, hdnamed⟩ := List.mem_filter.mp hd
    exact ((anchored_of_parse hmem hdnamed).within hc (not_isMark_of_named hnamed)).fronted
  headed := by
    intro text _ c hc hkind
    obtain ⟨hmem, hnamed⟩ := List.mem_filter.mp hc
    exact (anchored_of_parse hmem hnamed).headed hkind

end Cst

end Stopwatch
