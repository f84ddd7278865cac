import Mathlib
import Stopwatch.Grammar.Parse
import Stopwatch.Proofs.Leaves
import Stopwatch.Proofs.ScannedTokens

/-!
# The trees of parsed sources

Every node that the grammar gives starts with a token that can be seen, and the body of a function is never
the first thing in it. Whether a rule is written so can be read off the rule (`Rule.leads`, `Rule.sound`);
what it reads then is so, by induction on the reading.

* `Cst.Anchored`: a node that starts with the first of its tokens, at any depth.
* `Rule.parse_reads`: what a checked grammar reads.
* `Cst.anchored_of_parse`: the named children of the tree of any source, comments included.
-/

namespace Stopwatch

namespace Cst

/-! ## Anchored nodes -/

/-- A leaf that is no more than its token. -/
def IsMark (c : Cst) : Prop := c.children = [] ∧ c.info.named = false

/-- A node that starts with a visible token, and so do the nodes below it, marks apart. Its leaves have the
property `P`. -/
inductive Anchored (P : CstInfo → Prop) : Cst → Prop
  | leaf {i : CstInfo} (hkind : isTokenKind i.kind = true) (hlt : i.start < i.stop) (hleaf : P i) :
      Anchored P (.node i [])
  | node {i : CstInfo} {c : Cst} {cs : List Cst} (hhead : Anchored P c) (hstart : c.start = i.start)
      (hfield : c.info.field ≠ some "body") (hle : ∀ d ∈ cs, i.start ≤ d.start)
      (hbody : ∀ d ∈ cs, d.info.field = some "body" → c.stop ≤ d.start)
      (hmarks : ∀ d ∈ cs, d.IsMark → P d.info ∧ d.start ≤ d.stop)
      (hrest : ∀ d ∈ cs, ¬ d.IsMark → Anchored P d) : Anchored P (.node i (c :: cs))

variable {P : CstInfo → Prop}

theorem leaves_of_isMark {c : Cst} (h : c.IsMark) (p : String) :
    ∀ l ∈ c.leaves p, l.start = c.start ∧ l.stop = c.stop := by
  cases c with
  | node i cs =>
    obtain rfl : cs = [] := h.1
    intro l hl
    rw [leaves] at hl
    split at hl
    · cases hl
    · rw [List.mem_singleton.mp hl]
      exact ⟨rfl, rfl⟩

/-- The first token of an anchored node is where the node starts. -/
theorem Anchored.leaves {c : Cst} (h : c.Anchored P) (p : String) :
    (∃ l, (c.leaves p).head? = some l ∧ l.start = c.start) ∧
      ∀ l ∈ c.leaves p, c.start ≤ l.start ∧ l.start ≤ l.stop := by
  induction h generalizing p with
  | @leaf i hkind hlt _ =>
    have hvisible : isTerminatorKind i.kind = false := by
      have := hkind
      simp only [isTokenKind, Bool.and_eq_true, Bool.not_eq_true'] at this
      exact this.1
    have heq : (Cst.node i []).leaves p = [⟨i.kind, p, i.start, i.stop⟩] := by
      rw [Cst.leaves, hvisible]
      simp [hlt.ne]
    rw [heq]
    exact ⟨⟨_, rfl, rfl⟩, by simpa [start, info] using hlt.le⟩
  | @node i c cs _ hstart _ hle _ hmarks _ ihhead ihrest =>
    obtain ⟨⟨l, hl, hlstart⟩, hall⟩ := ihhead i.kind
    have hsplit : (Cst.node i (c :: cs)).leaves p = c.leaves i.kind ++ leavesAll i.kind cs := rfl
    rw [hsplit]
    refine ⟨⟨l, by rw [List.head?_append, hl]; rfl, hlstart.trans hstart⟩, ?_⟩
    rw [List.forall_mem_append]
    refine ⟨fun m hm => ?_, fun m hm => ?_⟩
    · rw [← show c.start = (Cst.node i (c :: cs)).start from hstart]
      exact hall m hm
    · rw [leavesAll_eq_flatMap] at hm
      obtain ⟨d, hd, hm⟩ := List.mem_flatMap.mp hm
      have hdle : (Cst.node i (c :: cs)).start ≤ d.start := hle d hd
      by_cases hmark : d.IsMark
      · obtain ⟨hs, he⟩ := leaves_of_isMark hmark i.kind m hm
        rw [hs, he]
        exact ⟨hdle, (hmarks d hd hmark).2⟩
      · obtain ⟨hs, he⟩ := (ihrest d hd hmark i.kind).2 m hm
        exact ⟨hdle.trans hs, he⟩

/-- A node keeps its tokens with another role. -/
theorem Anchored.withField {i : CstInfo} {cs : List Cst} (h : (Cst.node i cs).Anchored P)
    (hP : ∀ i f, P i → P { i with field := f }) (f : Option String) :
    (Cst.node { i with field := f } cs).Anchored P := by
  cases h with
  | leaf hkind hlt hleaf => exact .leaf hkind hlt (hP i f hleaf)
  | node hhead hstart hfield hle hbody hmarks hrest =>
    exact .node hhead hstart hfield hle hbody hmarks hrest

/-- A node is anchored or a mark, and lies between its ends. -/
structure Placed (P : CstInfo → Prop) (c : Cst) : Prop where
  le : c.start ≤ c.stop
  mark : c.IsMark → P c.info
  anchored : ¬ c.IsMark → c.Anchored P

end Cst

/-! ## Rules -/

namespace Rule

variable {σ : Type}

mutual

/-- Whether a rule never reads nothing. -/
def solid : Rule σ → Bool
  | word _ | name _ | nameIn _ _ | literal | quoted | ref _ => true
  | seq rs => anySolid rs
  | alt rs => allSolid rs
  | node _ r | field _ r | within _ r => r.solid
  | many _ | tag _ | sameRow | ended | notBefore _ | literalsAllowed => false
termination_by structural r => r

/-- Whether one of several rules never reads nothing. -/
def anySolid : List (Rule σ) → Bool
  | [] => false
  | r :: rs => r.solid || anySolid rs
termination_by structural rs => rs

/-- Whether none of several rules ever reads nothing. -/
def allSolid : List (Rule σ) → Bool
  | [] => true
  | r :: rs => r.solid && allSolid rs
termination_by structural rs => rs

end

mutual

/-- Whether what a rule reads, if anything, starts with a visible token that is in no body. -/
def leads : Rule σ → Bool
  | word w => Cst.isTokenKind w
  | name kind | nameIn _ kind => Cst.isTokenKind kind
  | seq rs => leadsInTurn rs
  | alt rs => allLead rs
  | many r | within _ r => r.leads
  | field f r => f != "body" && r.leads
  | literal | quoted | ref _ | node _ _ | tag _ | sameRow | notBefore _ | literalsAllowed => true
  | ended => false
termination_by structural r => r

/-- Whether rules, read one after another, start so. -/
def leadsInTurn : List (Rule σ) → Bool
  | [] => true
  | r :: rs => r.leads && (r.solid || leadsInTurn rs)
termination_by structural rs => rs

/-- Whether each of several rules starts so. -/
def allLead : List (Rule σ) → Bool
  | [] => true
  | r :: rs => r.leads && allLead rs
termination_by structural rs => rs

end

mutual

/-- Whether every node that a rule makes starts with a visible token that is in no body. -/
def sound : Rule σ → Bool
  | name kind | nameIn _ kind => Cst.isTokenKind kind
  | node _ r => r.leads && r.sound
  | seq rs | alt rs => allSound rs
  | many r | field _ r | within _ r => r.sound
  | word _ | literal | quoted | ref _ | tag _ | sameRow | ended | notBefore _ | literalsAllowed => true
termination_by structural r => r

/-- Whether this holds of each of several rules. -/
def allSound : List (Rule σ) → Bool
  | [] => true
  | r :: rs => r.sound && allSound rs
termination_by structural rs => rs

end

/-- The leaf lies in one of the tokens. -/
def InToken (tokens : List Token) (i : CstInfo) : Prop :=
  ∃ t ∈ tokens, t.start ≤ i.start ∧ i.stop ≤ t.stop

/-- What was read from the tokens `used`: nodes in order, each of which starts and ends with one of them. -/
structure Reads (tokens used : List Token) (o : Output) : Prop where
  placed : ∀ c ∈ o.nodes, c.Placed (InToken tokens)
  starts : ∀ c ∈ o.nodes, ∃ t ∈ used, c.start = t.start
  stops : ∀ c ∈ o.nodes, ∃ t ∈ used, c.stop = t.stop
  ordered : o.nodes.Pairwise fun a b => a.stop ≤ b.start

/-- The first of the nodes, if there is one, is anchored and no body. -/
def Output.Leads (tokens : List Token) (o : Output) : Prop :=
  ∀ c ∈ o.nodes.head?, c.Anchored (InToken tokens) ∧ c.info.field ≠ some "body"

/-- Tokens one behind the other, taken from `tokens`. -/
structure Run (tokens ts : List Token) : Prop where
  subset : ts ⊆ tokens
  sound : ∀ t ∈ ts, t.Sound
  ordered : ts.Pairwise fun a b => a.stop ≤ b.start

theorem Run.of_append {tokens used rest : List Token} (h : Run tokens (used ++ rest)) : Run tokens rest where
  subset := fun _ ht => h.subset (List.mem_append_right used ht)
  sound t ht := h.sound t (List.mem_append_right used ht)
  ordered := (List.pairwise_append.mp h.ordered).2.1

section Outputs

variable {tokens used more : List Token} {o o' : Output} {t : Token} {ts : List Token}

theorem Reads.empty (tokens : List Token) (tag : Option String) : Reads tokens [] ⟨[], tag⟩ :=
  ⟨by simp, by simp, by simp, .nil⟩

theorem leads_empty (tokens : List Token) (tag : Option String) : Output.Leads tokens ⟨[], tag⟩ := by
  simp [Output.Leads]

/-- One output behind another. -/
theorem Reads.append (h : Reads tokens used o) (h' : Reads tokens more o')
    (hordered : (used ++ more).Pairwise fun a b => a.stop ≤ b.start) :
    Reads tokens (used ++ more) (o.append o') where
  placed := List.forall_mem_append.mpr ⟨h.placed, h'.placed⟩
  starts c hc := by
    rcases List.mem_append.mp hc with hc | hc
    · obtain ⟨t, ht, heq⟩ := h.starts c hc
      exact ⟨t, List.mem_append_left _ ht, heq⟩
    · obtain ⟨t, ht, heq⟩ := h'.starts c hc
      exact ⟨t, List.mem_append_right _ ht, heq⟩
  stops c hc := by
    rcases List.mem_append.mp hc with hc | hc
    · obtain ⟨t, ht, heq⟩ := h.stops c hc
      exact ⟨t, List.mem_append_left _ ht, heq⟩
    · obtain ⟨t, ht, heq⟩ := h'.stops c hc
      exact ⟨t, List.mem_append_right _ ht, heq⟩
  ordered := List.pairwise_append.mpr ⟨h.ordered, h'.ordered, fun a ha b hb => by
    obtain ⟨t, ht, hstop⟩ := h.stops a ha
    obtain ⟨u, hu, hstart⟩ := h'.starts b hb
    rw [hstop, hstart]
    exact (List.pairwise_append.mp hordered).2.2 t ht u hu⟩

/-- A leaf for a token. -/
theorem Reads.leaf (hts : Run tokens (t :: ts)) (kind : String) (named : Bool)
    (hkind : named = true → Cst.isTokenKind kind = true) : Reads tokens [t] (leaf kind named t) where
  placed := by
    have hin : InToken tokens ⟨kind, t.start, t.stop, named, false, false, none⟩ :=
      ⟨t, hts.subset List.mem_cons_self, le_refl _, le_refl _⟩
    have hlt := (hts.sound t List.mem_cons_self).lt
    refine List.forall_mem_singleton.mpr ⟨hlt.le, fun _ => hin, fun hmark => ?_⟩
    cases named with
    | true => exact .leaf (hkind rfl) hlt hin
    | false => exact absurd ⟨rfl, rfl⟩ hmark
  starts := by simp [Rule.leaf, Cst.start, Cst.info]
  stops := by simp [Rule.leaf, Cst.stop, Cst.info]
  ordered := List.pairwise_singleton _ _

theorem leads_leaf (hts : Run tokens (t :: ts)) {kind : String} (named : Bool)
    (hkind : Cst.isTokenKind kind = true) : (leaf kind named t).Leads tokens := by
  rintro c ⟨⟩
  exact ⟨.leaf hkind (hts.sound t List.mem_cons_self).lt
    ⟨t, hts.subset List.mem_cons_self, le_refl _, le_refl _⟩, by simp [Cst.info]⟩

/-- The node around nodes of which the first is anchored. -/
theorem anchored_wrap {i : CstInfo} {c : Cst} {cs : List Cst} (h : Reads tokens used ⟨c :: cs, none⟩)
    (hleads : Output.Leads tokens ⟨c :: cs, none⟩) (hstart : c.start = i.start) :
    (Cst.node i (c :: cs)).Anchored (InToken tokens) := by
  obtain ⟨hhead, hfield⟩ := hleads c rfl
  have hordered := (List.pairwise_cons.mp h.ordered).1
  have hc := (h.placed c List.mem_cons_self).le
  exact .node hhead hstart hfield (fun d hd => hstart ▸ hc.trans (hordered d hd))
    (fun d hd _ => hordered d hd)
    (fun d hd hmark => ⟨(h.placed d (List.mem_cons_of_mem c hd)).mark hmark,
      (h.placed d (List.mem_cons_of_mem c hd)).le⟩)
    fun d hd hmark => (h.placed d (List.mem_cons_of_mem c hd)).anchored hmark

theorem start_le_stop_of_ordered {cs : List Cst} {a b : Cst} (hle : ∀ c ∈ cs, c.start ≤ c.stop)
    (hordered : cs.Pairwise fun a b => a.stop ≤ b.start) (ha : cs.head? = some a)
    (hb : cs.getLast? = some b) : a.start ≤ b.stop := by
  obtain ⟨rest, rfl⟩ := List.head?_eq_some_iff.mp ha
  have hmem : b ∈ a :: rest := List.mem_of_getLast? hb
  rcases List.mem_cons.mp hmem with rfl | hrest
  · exact hle _ List.mem_cons_self
  · calc a.start ≤ a.stop := hle a List.mem_cons_self
      _ ≤ b.start := (List.pairwise_cons.mp hordered).1 b hrest
      _ ≤ b.stop := hle b hmem

theorem wrap_cons (kind : String) (tag : Option String) {c b : Cst} {cs : List Cst}
    (hb : (c :: cs).getLast? = some b) :
    wrap kind ⟨c :: cs, tag⟩ =
      ⟨[.node { kind := tag.getD kind, start := c.start, stop := b.stop, named := true } (c :: cs)],
        none⟩ := by
  simp [wrap, hb]

/-- A node around what was read. -/
theorem Reads.wrap (h : Reads tokens used o) (hleads : o.Leads tokens) (kind : String) :
    Reads tokens used (wrap kind o) ∧ (wrap kind o).Leads tokens := by
  obtain ⟨nodes, tag⟩ := o
  cases nodes with
  | nil => exact ⟨⟨by simp [Rule.wrap], by simp [Rule.wrap], by simp [Rule.wrap], by simp [Rule.wrap]⟩,
      by simp [Output.Leads, Rule.wrap]⟩
  | cons c cs =>
    have hb := List.getLast?_eq_some_getLast (List.cons_ne_nil c cs)
    rw [wrap_cons kind tag hb]
    have hplain : Reads tokens used ⟨c :: cs, none⟩ := ⟨h.placed, h.starts, h.stops, h.ordered⟩
    set i : CstInfo := ⟨tag.getD kind, c.start, ((c :: cs).getLast (List.cons_ne_nil c cs)).stop, true,
      false, false, none⟩
    have hanchored : (Cst.node i (c :: cs)).Anchored (InToken tokens) := anchored_wrap hplain hleads rfl
    have hle : c.start ≤ i.stop :=
      start_le_stop_of_ordered (fun d hd => (h.placed d hd).le) h.ordered rfl hb
    have hstops : ∃ t ∈ used, i.stop = t.stop := h.stops _ (List.mem_of_getLast? hb)
    refine ⟨⟨List.forall_mem_singleton.mpr ⟨hle, fun hmark => ?_, fun _ => hanchored⟩, ?_, ?_, ?_⟩, ?_⟩
    · exact absurd hmark.1 (by simp [Cst.children])
    · exact List.forall_mem_singleton.mpr (h.starts c List.mem_cons_self)
    · exact List.forall_mem_singleton.mpr hstops
    · exact List.pairwise_singleton _ _
    · rintro d ⟨⟩
      exact ⟨hanchored, by simp [Cst.info]⟩

/-- Another role of what was read. -/
theorem Reads.withField (h : Reads tokens used o) (f : String) : Reads tokens used (withField f o) where
  placed := by
    refine List.forall_mem_map.mpr fun c hc => ?_
    obtain ⟨i, cs⟩ := c
    obtain ⟨hle, hmark, hanchored⟩ := h.placed _ hc
    exact ⟨hle, hmark, fun hnot => (hanchored hnot).withField (fun _ _ hi => hi) _⟩
  starts := by
    refine List.forall_mem_map.mpr fun c hc => ?_
    obtain ⟨i, cs⟩ := c
    exact h.starts (.node i cs) hc
  stops := by
    refine List.forall_mem_map.mpr fun c hc => ?_
    obtain ⟨i, cs⟩ := c
    exact h.stops (.node i cs) hc
  ordered := by
    refine List.pairwise_map.mpr (h.ordered.imp ?_)
    rintro ⟨i, cs⟩ ⟨j, ds⟩ hle
    exact hle

theorem leads_withField (h : o.Leads tokens) {f : String} (hf : f ≠ "body") :
    (withField f o).Leads tokens := by
  intro c hc
  simp only [withField, List.head?_map] at hc
  obtain ⟨⟨i, cs⟩, hmem, rfl⟩ := Option.map_eq_some_iff.mp hc
  exact ⟨(h _ hmem).1.withField (fun _ _ hi => hi) _, by simpa [Cst.info] using hf⟩

/-- The pieces of a string, one behind the other. -/
theorem pieceLeaves_placed {offset stop : Nat} {ps : List (String × Nat)} (ht : t ∈ tokens)
    (hoffset : t.start ≤ offset) (hroom : offset + (ps.map Prod.snd).sum ≤ stop) (hstop : stop ≤ t.stop)
    (hps : ∀ p ∈ ps, Cst.isTokenKind p.1 = true ∧ 0 < p.2) :
    ∀ c ∈ pieceLeaves offset ps, offset ≤ c.start ∧ c.info.field = none ∧ c.Placed (InToken tokens) := by
  induction ps generalizing offset with
  | nil => simp [pieceLeaves]
  | cons p ps ih =>
    obtain ⟨kind, len⟩ := p
    obtain ⟨⟨hkind, hlen⟩, hps⟩ := List.forall_mem_cons.mp hps
    simp only [List.map_cons, List.sum_cons] at hroom
    have hin : InToken tokens ⟨kind, offset, offset + len, true, false, false, none⟩ :=
      ⟨t, ht, hoffset, by simp only; omega⟩
    have hlt : offset < offset + len := Nat.lt_add_of_pos_right hlen
    refine List.forall_mem_cons.mpr ⟨⟨le_refl _, rfl, hlt.le, fun _ => hin, fun _ => .leaf hkind hlt hin⟩,
      fun c hc => ?_⟩
    obtain ⟨hle, hrest⟩ := ih (by omega) (by omega) hps c hc
    exact ⟨by omega, hrest⟩

theorem isTokenKind_quote : Cst.isTokenKind "\"" = true := by decide

theorem isTokenKind_backquote : Cst.isTokenKind "\x60" = true := by decide

/-- A string literal has the range of its token. -/
theorem stringNode_eq (kind quote : String) (t : Token) :
    stringNode kind quote t = ⟨[.node { kind := kind, start := t.start, stop := t.stop, named := true }
      (.node { kind := quote, start := t.start, stop := t.start + 1 } [] ::
        (pieceLeaves (t.start + 1) t.pieces ++
          [.node { kind := quote, start := t.stop - 1, stop := t.stop } []]))], none⟩ := by
  rw [stringNode, List.cons_append]
  refine wrap_cons kind none (b := .node { kind := quote, start := t.stop - 1, stop := t.stop } []) ?_
  rw [← List.cons_append, List.getLast?_concat]

/-- A string literal is the node of its token. -/
theorem Reads.string (hts : Run tokens (t :: ts)) (kind : String) {quote : String}
    (hquote : Cst.isTokenKind quote = true) :
    Reads tokens [t] (stringNode kind quote t) ∧ (stringNode kind quote t).Leads tokens := by
  have ht : t ∈ tokens := hts.subset List.mem_cons_self
  have hsound := hts.sound t List.mem_cons_self
  have hroom := hsound.room
  set front : Cst := .node { kind := quote, start := t.start, stop := t.start + 1 } []
  set back : Cst := .node { kind := quote, start := t.stop - 1, stop := t.stop } []
  have hpieces := pieceLeaves_placed ht (Nat.le_succ t.start) hroom (le_refl t.stop) hsound.pieces
  have hfront : front.Anchored (InToken tokens) :=
    .leaf hquote (Nat.lt_succ_self _) ⟨t, ht, le_refl _, by simp only; omega⟩
  have hback : InToken tokens back.info := ⟨t, ht, by simp only [back, Cst.info]; omega, le_refl _⟩
  have hanchored : (Cst.node { kind := kind, start := t.start, stop := t.stop, named := true }
      (front :: (pieceLeaves (t.start + 1) t.pieces ++ [back]))).Anchored (InToken tokens) := by
    refine .node hfront rfl (by simp [front, Cst.info]) ?_ ?_ ?_ ?_
    · refine List.forall_mem_append.mpr ⟨fun c hc => ?_, List.forall_mem_singleton.mpr ?_⟩
      · exact (Nat.le_succ _).trans (hpieces c hc).1
      · simp only [back, Cst.start, Cst.info]
        omega
    · refine List.forall_mem_append.mpr ⟨fun c hc hbody => ?_, List.forall_mem_singleton.mpr fun h => ?_⟩
      · rw [(hpieces c hc).2.1] at hbody
        cases hbody
      · simp [back, Cst.info] at h
    · refine List.forall_mem_append.mpr ⟨fun c hc hmark => ?_, List.forall_mem_singleton.mpr fun _ => ?_⟩
      · exact ⟨(hpieces c hc).2.2.mark hmark, (hpieces c hc).2.2.le⟩
      · exact ⟨hback, by simp only [back, Cst.start, Cst.stop, Cst.info]; omega⟩
    · refine List.forall_mem_append.mpr ⟨fun c hc => (hpieces c hc).2.2.anchored,
        List.forall_mem_singleton.mpr fun hmark => absurd ⟨rfl, rfl⟩ hmark⟩
  rw [stringNode_eq]
  refine ⟨⟨List.forall_mem_singleton.mpr ⟨hsound.lt.le, fun hmark => ?_, fun _ => hanchored⟩,
    List.forall_mem_singleton.mpr ⟨t, by simp, rfl⟩, List.forall_mem_singleton.mpr ⟨t, by simp, rfl⟩,
    List.pairwise_singleton _ _⟩, ?_⟩
  · exact absurd hmark.1 (by simp [Cst.children])
  · rintro d ⟨⟩
    exact ⟨hanchored, by simp [Cst.info]⟩

end Outputs

/-! ## Reading by a checked rule -/

/-- What a rule read from the tokens `ts`, up to `rest`, is as the rule promises. -/
structure Fits (tokens ts : List Token) (rule : Rule σ) (o : Output) (rest : List Token) : Prop where
  reads : ∃ used, ts = used ++ rest ∧ Reads tokens used o
  solid : rule.solid = true → o.nodes ≠ []
  leads : rule.leads = true → o.Leads tokens

section Fits

variable {tokens ts rest rest' : List Token} {rule r : Rule σ} {rs : List (Rule σ)} {o a b : Output}
  {t : Token}

/-- Reading nothing. -/
theorem Fits.nothing (hrule : rule.solid = false) (tag : Option String) :
    Fits tokens ts rule ⟨[], tag⟩ ts where
  reads := ⟨[], rfl, .empty tokens tag⟩
  solid h := by simp [hrule] at h
  leads _ := leads_empty tokens tag

/-- Reading one token as a leaf. -/
theorem Fits.leaf (hts : Run tokens (t :: ts)) {kind : String} {named : Bool}
    (hnamed : named = true → Cst.isTokenKind kind = true)
    (hleads : rule.leads = true → Cst.isTokenKind kind = true) :
    Fits tokens (t :: ts) rule (leaf kind named t) ts where
  reads := ⟨[t], rfl, .leaf hts kind named hnamed⟩
  solid _ := List.cons_ne_nil _ _
  leads h := leads_leaf hts named (hleads h)

/-- Reading a string. -/
theorem Fits.string (hts : Run tokens (t :: ts)) (kind : String) {quote : String}
    (hquote : Cst.isTokenKind quote = true) :
    Fits tokens (t :: ts) (quoted : Rule σ) (stringNode kind quote t) ts := by
  obtain ⟨hreads, hleads⟩ := Reads.string hts kind hquote
  exact ⟨⟨[t], rfl, hreads⟩, fun _ => by simp [stringNode_eq], fun _ => hleads⟩

/-- Reading by one rule and then by others. -/
theorem Fits.seq (hts : Run tokens ts) (ha : Fits tokens ts r a rest)
    (hb : Fits tokens rest (seq rs) b rest') : Fits tokens ts (seq (r :: rs)) (a.append b) rest' := by
  obtain ⟨used, rfl, hused⟩ := ha.reads
  obtain ⟨more, rfl, hmore⟩ := hb.reads
  refine ⟨⟨used ++ more, (List.append_assoc ..).symm, hused.append hmore ?_⟩, fun h => ?_, fun h => ?_⟩
  · rw [← List.append_assoc] at hts
    exact (List.pairwise_append.mp hts.ordered).1
  · simp only [Rule.solid, anySolid, Bool.or_eq_true] at h
    rw [Output.append, ne_eq, List.append_eq_nil_iff, not_and_or]
    exact h.imp ha.solid hb.solid
  · simp only [Rule.leads, leadsInTurn, Bool.and_eq_true, Bool.or_eq_true] at h
    obtain ⟨hr, hrest⟩ := h
    intro c hc
    simp only [Output.append, List.head?_append] at hc
    cases ha' : a.nodes.head? with
    | some d =>
      rw [ha'] at hc
      exact ha.leads hr c (by rw [ha']; exact hc)
    | none =>
      rw [ha', Option.none_or] at hc
      refine hrest.elim (fun hsolid => ?_) fun hleads => hb.leads hleads c hc
      exact absurd (List.head?_eq_none_iff.mp ha') (ha.solid hsolid)

/-- Reading by a rule as often as it fits. -/
theorem Fits.many (hts : Run tokens ts) (ha : Fits tokens ts r a rest)
    (hb : Fits tokens rest (many r) b rest') : Fits tokens ts (many r) (a.append b) rest' := by
  have hseq : Fits tokens rest (Rule.seq [Rule.many r]) b rest' :=
    ⟨hb.reads, fun h => by simp [Rule.solid, anySolid] at h,
      fun h => hb.leads (by simpa [Rule.leads, leadsInTurn] using h)⟩
  obtain ⟨hreads, -, hleads⟩ := Fits.seq hts ha hseq
  refine ⟨hreads, fun h => by simp [Rule.solid] at h, fun h => hleads ?_⟩
  have hr : r.leads = true := h
  simp [Rule.leads, leadsInTurn, hr]

/-- Reading by the first of several rules. -/
theorem Fits.alt_head (h : Fits tokens ts r o rest) (rs : List (Rule σ)) :
    Fits tokens ts (alt (r :: rs)) o rest where
  reads := h.reads
  solid hs := h.solid (Bool.and_eq_true_iff.mp hs).1
  leads hl := h.leads (Bool.and_eq_true_iff.mp hl).1

/-- Reading by another one. -/
theorem Fits.alt_tail (h : Fits tokens ts (alt rs) o rest) (r : Rule σ) :
    Fits tokens ts (alt (r :: rs)) o rest where
  reads := h.reads
  solid hs := h.solid (Bool.and_eq_true_iff.mp hs).2
  leads hl := h.leads (Bool.and_eq_true_iff.mp hl).2

/-- Reading a node. -/
theorem Fits.node (h : Fits tokens ts r o rest) (hr : r.leads = true) (kind : String) :
    Fits tokens ts (node kind r) (wrap kind o) rest := by
  obtain ⟨used, heq, hused⟩ := h.reads
  obtain ⟨hreads, hleads⟩ := hused.wrap (h.leads hr) kind
  refine ⟨⟨used, heq, hreads⟩, fun hs => ?_, fun _ => hleads⟩
  obtain ⟨c, cs, hnodes⟩ := List.exists_cons_of_ne_nil (h.solid hs)
  obtain ⟨nodes, tag⟩ := o
  obtain rfl : nodes = c :: cs := hnodes
  rw [wrap_cons kind tag (List.getLast?_eq_some_getLast (List.cons_ne_nil c cs))]
  exact List.cons_ne_nil _ _

/-- Reading something with a role. -/
theorem Fits.field (h : Fits tokens ts r o rest) (f : String) :
    Fits tokens ts (field f r) (withField f o) rest := by
  obtain ⟨used, heq, hused⟩ := h.reads
  refine ⟨⟨used, heq, hused.withField f⟩, fun hs => ?_, fun hl => ?_⟩
  · simpa [withField] using h.solid hs
  · obtain ⟨hf, hr⟩ := Bool.and_eq_true_iff.mp hl
    exact leads_withField (h.leads hr) (by simpa using hf)

/-- What a sound rule of a sound grammar reads is as the rule promises. -/
theorem parse_fits {rules : σ → Rule σ}
    (hrules : ∀ s, (rules s).solid = true ∧ (rules s).leads = true ∧ (rules s).sound = true) {n : Nat}
    {mode : Mode} (hts : Run tokens ts) (hsound : rule.sound = true)
    (h : parse rules n rule mode ts = some (o, rest)) : Fits tokens ts rule o rest := by
  induction n generalizing rule mode ts o rest with
  | zero => cases h
  | succ n ih =>
    cases rule with
    | word w =>
      cases ts with
      | nil => cases h
      | cons t ts =>
        obtain ⟨-, heq⟩ := Option.ite_none_right_eq_some.mp h
        cases heq
        exact .leaf hts nofun id
    | name kind =>
      cases ts with
      | nil => cases h
      | cons t ts =>
        simp only [parse] at h
        split at h
        · cases h
          exact .leaf hts (fun _ => hsound) id
        · cases h
    | nameIn spellings kind =>
      cases ts with
      | nil => cases h
      | cons t ts =>
        simp only [parse] at h
        split at h
        · obtain ⟨-, heq⟩ := Option.ite_none_right_eq_some.mp h
          cases heq
          exact .leaf hts (fun _ => hsound) id
        · cases h
    | literal =>
      cases ts with
      | nil => cases h
      | cons t ts =>
        simp only [parse] at h
        split at h
        · next kind hkind =>
          cases h
          have htoken := (hts.sound t List.mem_cons_self).literal kind hkind
          exact .leaf hts (fun _ => htoken) fun _ => htoken
        · cases h
    | quoted =>
      cases ts with
      | nil => cases h
      | cons t ts =>
        simp only [parse] at h
        split at h
        · cases h
          exact .string hts _ isTokenKind_quote
        · cases h
          exact .string hts _ isTokenKind_backquote
        · cases h
    | seq rs =>
      cases rs with
      | nil =>
        cases h
        exact .nothing rfl none
      | cons r rs =>
        obtain ⟨hr, hrest⟩ := Bool.and_eq_true_iff.mp hsound
        have hrs : (Rule.seq rs).sound = true := hrest
        simp only [parse, Option.bind_eq_some_iff, Option.map_eq_some_iff, Prod.exists,
          Prod.mk.injEq] at h
        obtain ⟨a, rest₁, ha, b, _, hb, rfl, rfl⟩ := h
        have hfirst := ih hts hr ha
        obtain ⟨used, rfl, -⟩ := hfirst.reads
        exact hfirst.seq hts (ih hts.of_append hrs hb)
    | alt rs =>
      cases rs with
      | nil => cases h
      | cons r rs =>
        obtain ⟨hr, hrest⟩ := Bool.and_eq_true_iff.mp hsound
        have hrs : (Rule.alt rs).sound = true := hrest
        simp only [parse] at h
        split at h
        · next found hfound =>
          cases h
          exact (ih hts hr hfound).alt_head rs
        · exact (ih hts hrs h).alt_tail r
    | many r =>
      simp only [parse] at h
      split at h
      · cases h
        exact .nothing rfl none
      · next a rest₁ ha =>
        split_ifs at h
        · simp only [Option.map_eq_some_iff, Prod.exists, Prod.mk.injEq] at h
          obtain ⟨b, _, hb, rfl, rfl⟩ := h
          have hr : r.sound = true := hsound
          have hfirst := ih hts hr ha
          obtain ⟨used, rfl, -⟩ := hfirst.reads
          exact hfirst.many hts (ih hts.of_append hsound hb)
        · cases h
          exact .nothing rfl none
    | node kind r =>
      obtain ⟨hleads, hr⟩ := Bool.and_eq_true_iff.mp hsound
      simp only [parse, Option.map_eq_some_iff, Prod.exists, Prod.mk.injEq] at h
      obtain ⟨o, _, ho, rfl, rfl⟩ := h
      exact (ih hts hr ho).node hleads kind
    | tag kind =>
      cases h
      exact .nothing rfl (some kind)
    | field f r =>
      simp only [parse, Option.map_eq_some_iff, Prod.exists, Prod.mk.injEq] at h
      obtain ⟨o, _, ho, rfl, rfl⟩ := h
      have hr : r.sound = true := hsound
      exact (ih hts hr ho).field f
    | ref s =>
      obtain ⟨hsolid, hleads, hs⟩ := hrules s
      obtain ⟨hreads, hne, hlead⟩ := ih hts hs h
      exact ⟨hreads, fun _ => hne hsolid, fun _ => hlead hleads⟩
    | sameRow =>
      cases ts with
      | nil =>
        cases h
        exact .nothing rfl none
      | cons t ts =>
        obtain ⟨-, heq⟩ := Option.ite_none_left_eq_some.mp h
        cases heq
        exact .nothing rfl none
    | ended =>
      cases ts with
      | nil =>
        cases h
        exact .nothing rfl none
      | cons t ts =>
        simp only [parse] at h
        split_ifs at h
        · cases h
          exact .nothing rfl none
        · obtain ⟨w, -, heq⟩ := Option.map_eq_some_iff.mp h
          cases heq
          exact .leaf hts nofun nofun
    | notBefore w =>
      cases ts with
      | nil =>
        cases h
        exact .nothing rfl none
      | cons t ts =>
        obtain ⟨-, heq⟩ := Option.ite_none_left_eq_some.mp h
        cases heq
        exact .nothing rfl none
    | literalsAllowed =>
      obtain ⟨-, heq⟩ := Option.ite_none_right_eq_some.mp h
      cases heq
      exact .nothing rfl none
    | within mode r =>
      have hr : r.sound = true := hsound
      simp only [parse] at h
      obtain ⟨hreads, hsolid, hleads⟩ := ih hts hr h
      exact ⟨hreads, hsolid, hleads⟩

end Fits

end Rule

/-! ## The grammar of programs -/

/-- Each symbol's rule reads something, and starts with a token that can be seen. -/
theorem Go.rules_checked (s : Go.Nonterminal) :
    (Go.rules s).solid = true ∧ (Go.rules s).leads = true ∧ (Go.rules s).sound = true := by
  cases s <;> decide

theorem Go.file_sound : Go.file.sound = true := by decide

/-! ## Comments put back -/

namespace Cst

theorem isTokenKind_comment : isTokenKind "comment" = true := by decide

/-- No comment lies in a leaf with the property `P`, and each has a length. -/
structure Outside (P : CstInfo → Prop) (comments : List CommentSpan) : Prop where
  lt : ∀ c ∈ comments, c.start < c.stop
  apart : ∀ i, P i → ∀ c ∈ comments, surrounds i c = false

variable {P : CstInfo → Prop} {comments : List CommentSpan}

theorem Outside.filter (h : Outside P comments) (p : CommentSpan → Bool) : Outside P (comments.filter p) where
  lt c hc := h.lt c (List.mem_of_mem_filter hc)
  apart i hi c hc := h.apart i hi c (List.mem_of_mem_filter hc)

theorem anchored_ofComment {c : CommentSpan} (h : c.start < c.stop) :
    (ofComment c).Anchored fun _ => True :=
  .leaf isTokenKind_comment h trivial

@[simp] theorem info_weave (comments : List CommentSpan) (c : Cst) : (weave comments c).info = c.info := by
  cases c
  rw [weave]
  split <;> rfl

theorem start_weave (comments : List CommentSpan) (c : Cst) : (weave comments c).start = c.start :=
  congrArg CstInfo.start (info_weave comments c)

theorem stop_weave (comments : List CommentSpan) (c : Cst) : (weave comments c).stop = c.stop :=
  congrArg CstInfo.stop (info_weave comments c)

theorem weave_nil (c : Cst) : weave [] c = c := by
  cases c
  simp [weave]

theorem weaveAll_eq_map (comments : List CommentSpan) (cs : List Cst) :
    weaveAll comments cs = cs.map fun c => weave (comments.filter (surrounds c.info)) c := by
  induction cs with
  | nil => rfl
  | cons c cs ih => rw [weaveAll, ih, List.map_cons]

/-- A leaf with the property `P` has no room for comments. -/
theorem Outside.weave_eq (h : Outside P comments) {c : Cst} (hc : P c.info) :
    weave (comments.filter (surrounds c.info)) c = c := by
  rw [List.filter_eq_nil_iff.mpr fun k hk => by simp [h.apart c.info hc k hk], weave_nil]

/-- The first of several nodes stays the first when they are sorted. -/
theorem mergeSort_cons_of_le {c : Cst} {cs : List Cst} (h : ∀ d ∈ cs, c.start ≤ d.start) :
    ((c :: cs).mergeSort fun a b => a.start ≤ b.start) = c :: cs.mergeSort fun a b => a.start ≤ b.start := by
  obtain ⟨front, back, heq, hsorted, hfront⟩ := @List.mergeSort_cons Cst
    (fun a b => decide (a.start ≤ b.start))
    (fun a b d hab hbd => by simp only [decide_eq_true_eq] at *; omega)
    (fun a b => by simp only [Bool.or_eq_true, decide_eq_true_eq]; omega) c cs
  have hnil : front = [] := by
    refine List.eq_nil_iff_forall_not_mem.mpr fun d hd => ?_
    have hmem : d ∈ cs := List.mem_mergeSort.mp (hsorted ▸ List.mem_append_left back hd)
    have hgt := hfront d hd
    simp [h d hmem] at hgt
  rw [heq, hsorted, hnil]
  rfl

/-- A child of a node with comments put back is one that it had, or a comment. -/
theorem mem_children_weave {i : CstInfo} {cs : List Cst} {d : Cst}
    (h : d ∈ (weave comments (.node i cs)).children) :
    (∃ c ∈ cs, d = weave (comments.filter (surrounds c.info)) c) ∨ ∃ k ∈ comments, d = ofComment k := by
  rw [weave] at h
  split at h
  · next hnone =>
    refine .inl ⟨d, h, ?_⟩
    rw [List.isEmpty_iff.mp hnone, List.filter_nil, weave_nil]
  · rw [weaveAll_eq_map] at h
    rcases List.mem_append.mp (List.mem_mergeSort.mp h) with h | h
    · obtain ⟨c, hc, rfl⟩ := List.mem_map.mp h
      exact .inl ⟨c, hc, rfl⟩
    · obtain ⟨k, hk, rfl⟩ := List.mem_map.mp h
      exact .inr ⟨k, List.mem_of_mem_filter hk, rfl⟩

/-- The first child stays the first, and every other one is one of the others or a comment. -/
theorem weave_cons {i : CstInfo} {c : Cst} {cs : List Cst} (hc : ∀ d ∈ cs, c.start ≤ d.start)
    (hcomments : ∀ k ∈ comments, c.start ≤ k.start) :
    ∃ rest, weave comments (.node i (c :: cs)) =
        .node i (weave (comments.filter (surrounds c.info)) c :: rest) ∧
      ∀ d ∈ rest, (∃ b ∈ cs, d = weave (comments.filter (surrounds b.info)) b) ∨
        ∃ k ∈ comments, d = ofComment k := by
  rw [weave]
  split
  · next hnone =>
    rw [List.isEmpty_iff.mp hnone]
    exact ⟨cs, by rw [List.filter_nil, weave_nil], fun d hd => .inl ⟨d, hd, (weave_nil d).symm⟩⟩
  · dsimp only
    rw [weaveAll_eq_map, List.map_cons, List.cons_append, mergeSort_cons_of_le]
    · refine ⟨_, rfl, fun d hd => ?_⟩
      rcases List.mem_append.mp (List.mem_mergeSort.mp hd) with hd | hd
      · obtain ⟨b, hb, rfl⟩ := List.mem_map.mp hd
        exact .inl ⟨b, hb, rfl⟩
      · obtain ⟨k, hk, rfl⟩ := List.mem_map.mp hd
        exact .inr ⟨k, List.mem_of_mem_filter hk, rfl⟩
    · refine List.forall_mem_append.mpr ⟨List.forall_mem_map.mpr fun d hd => ?_,
        List.forall_mem_map.mpr fun k hk => ?_⟩
      · rw [start_weave, start_weave]
        exact hc d hd
      · rw [start_weave]
        exact hcomments k (List.mem_of_mem_filter hk)

theorem Anchored.le_of_isMark {c : Cst} (h : c.Anchored P) (hmark : c.IsMark) : c.start ≤ c.stop := by
  cases h with
  | leaf _ hlt _ => exact hlt.le
  | node => exact absurd hmark.1 (List.cons_ne_nil _ _)

/-- Comments between its tokens leave a node anchored. -/
theorem Anchored.weave {c : Cst} (h : c.Anchored P) (hout : Outside P comments)
    (hin : ∀ k ∈ comments, surrounds c.info k = true) : (weave comments c).Anchored fun _ => True := by
  induction h generalizing comments with
  | @leaf i hkind hlt hleaf =>
    obtain rfl : comments = [] := List.eq_nil_iff_forall_not_mem.mpr fun k hk => by
      exact Bool.false_ne_true ((hout.apart i hleaf k hk).symm.trans (hin k hk))
    rw [weave_nil]
    exact .leaf hkind hlt trivial
  | @node i c cs hhead hstart hfield hle hbody hmarks hrest ihhead ihrest =>
    have hcomments : ∀ k ∈ comments, i.start < k.start := fun k hk =>
      of_decide_eq_true (Bool.and_eq_true_iff.mp (hin k hk)).1
    obtain ⟨rest, heq, hfound⟩ := weave_cons (i := i) (fun d hd => hstart.trans_le (hle d hd))
      fun k hk => hstart.trans_le (hcomments k hk).le
    have hinner : ∀ d : Cst, ∀ k ∈ comments.filter (surrounds d.info), surrounds d.info k = true :=
      fun d k hk => (List.mem_filter.mp hk).2
    have hanchored : ∀ d ∈ cs, ¬ d.IsMark →
        (Cst.weave (comments.filter (surrounds d.info)) d).Anchored fun _ => True :=
      fun d hd hmark => ihrest d hd hmark (hout.filter _) (hinner d)
    have hkept : ∀ d ∈ cs, d.IsMark → Cst.weave (comments.filter (surrounds d.info)) d = d :=
      fun d hd hmark => hout.weave_eq (hmarks d hd hmark).1
    rw [heq]
    refine .node (ihhead (hout.filter _) (hinner c)) ((start_weave _ c).trans hstart)
      (by rwa [info_weave]) (fun d hd => ?_) (fun d hd hd' => ?_) (fun d hd hmark => ⟨trivial, ?_⟩)
      fun d hd hmark => ?_
    · obtain ⟨b, hb, rfl⟩ | ⟨k, hk, rfl⟩ := hfound d hd
      · rw [start_weave]
        exact hle b hb
      · exact (hcomments k hk).le
    · obtain ⟨b, hb, rfl⟩ | ⟨k, hk, rfl⟩ := hfound d hd
      · rw [start_weave, stop_weave]
        exact hbody b hb (by rwa [info_weave] at hd')
      · cases hd'
    · obtain ⟨b, hb, rfl⟩ | ⟨k, hk, rfl⟩ := hfound d hd
      · by_cases hb' : b.IsMark
        · rw [hkept b hb hb']
          exact (hmarks b hb hb').2
        · exact (hanchored b hb hb').le_of_isMark hmark
      · cases hmark.2
    · obtain ⟨b, hb, rfl⟩ | ⟨k, hk, rfl⟩ := hfound d hd
      · by_cases hb' : b.IsMark
        · rw [hkept b hb hb'] at hmark
          exact absurd hb' hmark
        · exact hanchored b hb hb'
      · exact anchored_ofComment (hout.lt k hk)

/-! ## Whole sources -/

/-- No comment lies in a token. -/
theorem outside_of_ordered {s : Lexer.Scanned} {offset : Nat} (h : Lexer.Scanned.Ordered offset s) :
    Outside (Rule.InToken s.tokens) s.comments where
  lt c hc := (h.comments c hc).2
  apart i hi c hc := by
    obtain ⟨t, ht, hstart, hstop⟩ := hi
    have hlt := (h.comments c hc).2
    have happart := h.apart t ht c hc
    have hroom := (h.sound t ht).lt
    rw [surrounds, ← Bool.not_eq_true, Bool.and_eq_true, decide_eq_true_eq, decide_eq_true_eq]
    omega

/-- **The named children of the tree of a source** start with a visible token, at any depth. -/
theorem anchored_of_parse {source : Text} {c : Cst} (hc : c ∈ (parse source).children)
    (hnamed : c.info.named = true) : c.Anchored fun _ => True := by
  unfold parse at hc
  split at hc
  · cases hc
  · next tokens comments hscan =>
    have hordered := Lexer.scan_ordered hscan
    split at hc
    · next o hparse =>
      have hrun : Rule.Run tokens tokens := ⟨List.Subset.refl _, hordered.sound, hordered.ordered⟩
      obtain ⟨used, -, hreads⟩ := (Rule.parse_fits Go.rules_checked hrun Go.file_sound hparse).reads
      have hout := outside_of_ordered hordered
      obtain ⟨b, hb, rfl⟩ | ⟨k, hk, rfl⟩ := mem_children_weave hc
      · rw [info_weave] at hnamed
        have hanchored := (hreads.placed b hb).anchored fun hmark => by simp [hmark.2] at hnamed
        exact hanchored.weave (hout.filter _) fun k hk => (List.mem_filter.mp hk).2
      · exact anchored_ofComment (hout.lt k hk)
    · cases hc

end Cst

end Stopwatch
