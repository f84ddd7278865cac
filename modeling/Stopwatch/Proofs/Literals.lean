import Mathlib
import Stopwatch.Proofs.PairLines

/-!
# String literals

The language's rules for an interpreted string literal, all its escape sequences included, and what
`Quoted.encode` writes read by them. The literal of a pair is such a literal, on a line of its own, and
its value is the report: the template with the name in every place held for it.

* `Quoted.value?`: the value of an interpreted string literal.
* `Quoted.spells_encode`: what is written for a text is one literal on one line, with that value.
* `Template.Cut`: a template between the places held for the name. There is always such a cut
  (`exists_cut`), and it says what is put in (`replaceAll_of_cut`).
* `Pair.printed_literal`: the four lines of a pair, and the value of its literal.
-/

namespace Stopwatch

open Text

/-! ## The rules of the language -/

namespace Text.Quoted

/-- The value of a digit, where it is one in the base. -/
def digit? (base : Nat) (b : UInt8) : Option Nat :=
  let value :=
    if 48 ≤ b && b ≤ 57 then b.toNat - 48
    else if 97 ≤ b && b ≤ 102 then b.toNat - 87
    else if 65 ≤ b && b ≤ 70 then b.toNat - 55
    else base
  if value < base then some value else none

/-- The number the first `len` bytes spell. -/
def number? (base len : Nat) (t : Text) : Option Nat :=
  if t.length < len then none
  else (t.take len).foldlM (fun n b => (digit? base b).map (base * n + ·)) 0

/-- The bytes of the character with a code. -/
def character? (code : Nat) : Option Text :=
  if code.isValidChar then some (String.utf8EncodeChar (Char.ofNat code)) else none

/-- The byte a single letter stands for behind a backslash. -/
def letter? (b : UInt8) : Option UInt8 :=
  if b = 97 then some 7
  else if b = 98 then some 8
  else if b = 102 then some 12
  else if b = 118 then some 11
  else if b = 110 then some 10
  else if b = 114 then some 13
  else if b = 116 then some 9
  else if b = backslash then some backslash
  else if b = quote then some quote
  else none

/-- What the escape sequence behind a backslash stands for, and its length: the bytes `\xhh` and `\ooo`,
the characters `\uhhhh` and `\Uhhhhhhhh`, and the single letters. -/
def sequence? : Text → Option (Text × Nat)
  | [] => none
  | b :: t =>
    if b = 120 then (number? 16 2 t).map fun n => ([UInt8.ofNat n], 3)
    else if b = 117 then ((number? 16 4 t).bind character?).map (·, 5)
    else if b = 85 then ((number? 16 8 t).bind character?).map (·, 9)
    else match letter? b with
      | some v => some ([v], 1)
      | none => (number? 8 3 (b :: t)).bind fun n => if n < 256 then some ([UInt8.ofNat n], 3) else none

/-- The value of a literal's body up to its closing quote, which has to end the text, with `skip` bytes of
the last escape sequence still to pass over. -/
def bodyValue? : Nat → Text → Option Text
  | _, [] => none
  | skip + 1, _ :: t => bodyValue? skip t
  | 0, b :: t =>
    if b = quote then (if t = [] then some [] else none)
    else if b = newline then none
    else if b = backslash then (sequence? t).bind fun (v, len) => (bodyValue? len t).map (v ++ ·)
    else (bodyValue? 0 t).map (b :: ·)

/-- The value of an interpreted string literal by the rules of the language. -/
def value? : Text → Option Text
  | [] => none
  | b :: t => if b = quote then bodyValue? 0 t else none

/-- Whether a byte behind `front` is escaped: `front` ends with an odd number of backslashes. -/
def Escapes (front : Text) : Prop := Odd (front.rtakeWhile (· == backslash)).length

/-- `literal` is one interpreted string literal on one line: two quotes with none between them that is not
escaped, and its value is `value`. -/
structure Spells (literal value : Text) : Prop where
  line : newline ∉ literal
  quoted : ∃ body, literal = quote :: body ++ [quote] ∧ ¬ Escapes body ∧
    ∀ i, body[i]? = some quote → Escapes (body.take i)
  value : value? literal = some value

/-! ## What is written -/

/-- The bytes that are written with a backslash. -/
def escaped : List UInt8 := [backslash, quote, 10, 13, 9]

theorem escape_of_notMem {b : UInt8} (h : b ∉ escaped) : escape b = [b] := by
  simp only [escaped, List.mem_cons, List.not_mem_nil, or_false, not_or] at h
  simp [escape, h]

/-- A byte that is written with a backslash takes the backslash and one of five letters, which the language
reads back. -/
theorem exists_escape_of_mem {b : UInt8} (h : b ∈ escaped) :
    ∃ c, escape b = [backslash, c] ∧ c ≠ newline ∧ (c = quote ∨ c = backslash → c = b) ∧
      ∀ t, sequence? (c :: t) = some ([b], 1) := by
  simp only [escaped, List.mem_cons, List.not_mem_nil, or_false] at h
  obtain rfl | rfl | rfl | rfl | rfl := h
  · exact ⟨backslash, by decide, by decide, by decide, fun t => by simp [sequence?, letter?, backslash]⟩
  · exact ⟨quote, by decide, by decide, by decide, fun t => by simp [sequence?, letter?, quote, backslash]⟩
  · exact ⟨110, by decide, by decide, by decide, fun t => by simp [sequence?, letter?]⟩
  · exact ⟨114, by decide, by decide, by decide, fun t => by simp [sequence?, letter?]⟩
  · exact ⟨116, by decide, by decide, by decide, fun t => by simp [sequence?, letter?]⟩

theorem bodyValue?_escape (b : UInt8) (t : Text) :
    bodyValue? 0 (escape b ++ t) = (bodyValue? 0 t).map (b :: ·) := by
  by_cases h : b ∈ escaped
  · obtain ⟨c, hescape, -, -, hsequence⟩ := exists_escape_of_mem h
    have hquote : backslash ≠ quote := by decide
    have hnewline : backslash ≠ newline := by decide
    rw [hescape]
    simp only [List.cons_append, List.nil_append, bodyValue?, if_neg hquote, if_neg hnewline, if_true,
      hsequence, Option.bind_some]
  · rw [escape_of_notMem h]
    simp only [escaped, List.mem_cons, List.not_mem_nil, or_false, not_or] at h
    simp [bodyValue?, newline, h]

theorem bodyValue?_flatMap_escape (t : Text) : bodyValue? 0 (t.flatMap escape ++ [quote]) = some t := by
  induction t with
  | nil => rfl
  | cons b t ih => rw [List.flatMap_cons, List.append_assoc, bodyValue?_escape, ih]; rfl

/-- By the rules of the language, what is written for a text is a literal with that text as its value. -/
theorem value?_encode (t : Text) : value? (encode t) = some t := by
  simp [encode, value?, bodyValue?_flatMap_escape]

theorem encode_injective : Function.Injective encode := by
  intro s t h
  have hs := value?_encode s
  rw [h, value?_encode t] at hs
  exact (Option.some.inj hs).symm

/-! ## The quotes in between -/

theorem escapes_nil : ¬ Escapes [] := by simp [Escapes]

theorem escapes_concat (front : Text) (b : UInt8) :
    Escapes (front ++ [b]) ↔ b = backslash ∧ ¬ Escapes front := by
  unfold Escapes
  by_cases hb : b = backslash
  · rw [List.rtakeWhile_concat_pos _ _ _ (by simp [hb])]
    simp [hb, Nat.odd_add_one]
  · rw [List.rtakeWhile_concat_neg _ _ _ (by simp [hb])]
    simp [hb]

/-- Behind what is written for a text nothing is escaped, and every quote in it is. -/
theorem escapes_flatMap_escape (t : Text) :
    ¬ Escapes (t.flatMap escape) ∧
      ∀ i, (t.flatMap escape)[i]? = some quote → Escapes ((t.flatMap escape).take i) := by
  induction t using List.reverseRecOn with
  | nil => exact ⟨escapes_nil, fun i h => by simp at h⟩
  | append_singleton t b ih =>
    obtain ⟨hend, hquotes⟩ := ih
    rw [List.flatMap_append, List.flatMap_singleton]
    generalize t.flatMap escape = front at hend hquotes
    -- A quote in `front` is escaped there, so only what is written for `b` is looked at.
    suffices hlast : ¬ Escapes (front ++ escape b) ∧
        ∀ i, (escape b)[i]? = some quote → Escapes (front ++ (escape b).take i) by
      refine ⟨hlast.1, fun i hi => ?_⟩
      rcases Nat.lt_or_ge i front.length with hlt | hge
      · rw [List.getElem?_append_left hlt] at hi
        rw [List.take_append_of_le_length hlt.le]
        exact hquotes i hi
      · rw [List.getElem?_append_right hge] at hi
        rw [List.take_append, List.take_of_length_le hge]
        exact hlast.2 _ hi
    by_cases hb : b ∈ escaped
    · obtain ⟨c, hescape, -, -, -⟩ := exists_escape_of_mem hb
      have hbehind : Escapes (front ++ [backslash]) := (escapes_concat _ _).mpr ⟨rfl, hend⟩
      rw [hescape]
      refine ⟨fun h => ?_, fun i hi => ?_⟩
      · rw [List.append_cons] at h
        exact ((escapes_concat _ _).mp h).2 hbehind
      · rcases i with _ | _ | i
        · simp [backslash, quote] at hi
        · exact hbehind
        · simp at hi
    · rw [escape_of_notMem hb]
      have hne : b ≠ backslash ∧ b ≠ quote := by
        simp only [escaped, List.mem_cons, not_or] at hb
        exact ⟨hb.1, hb.2.1⟩
      refine ⟨fun h => hne.1 ((escapes_concat _ _).mp h).1, fun i hi => ?_⟩
      rcases i with _ | i
      · exact absurd (Option.some.inj hi) hne.2
      · simp at hi

/-- **What is written for a text** is one literal on one line, and its value is the text. -/
theorem spells_encode (t : Text) : Spells (encode t) t where
  line := Pair.newline_notMem_encode t
  quoted := ⟨_, rfl, escapes_flatMap_escape t⟩
  value := value?_encode t

/-! ## Only the quotes off -/

theorem strip_encode (t : Text) : strip (encode t) = t.flatMap escape := by
  have hlast : (t.flatMap escape ++ [quote]).getLast? = some quote := List.getLast?_concat
  have hfront : (t.flatMap escape ++ [quote]).dropLast = t.flatMap escape := List.dropLast_concat
  obtain ⟨b, rest, hbody⟩ := List.exists_cons_of_ne_nil (List.concat_ne_nil quote (t.flatMap escape))
  rw [hbody] at hlast hfront
  rw [encode, List.cons_append, hbody, strip, if_pos ⟨hlast, .inl rfl⟩, hfront]

theorem length_le_flatMap_escape (t : Text) : t.length ≤ (t.flatMap escape).length := by
  induction t with
  | nil => exact Nat.le_refl 0
  | cons b t ih =>
    have hescape : 1 ≤ (escape b).length := by
      by_cases hb : b ∈ escaped
      · obtain ⟨c, hescape, -⟩ := exists_escape_of_mem hb
        simp [hescape]
      · simp [escape_of_notMem hb]
    simp only [List.flatMap_cons, List.length_append, List.length_cons]
    omega

/-- Taking only the quotes off gives the text back where no byte of it is escaped. -/
theorem strip_encode_eq_iff (t : Text) : strip (encode t) = t ↔ ∀ b ∈ t, b ∉ escaped := by
  rw [strip_encode]
  constructor
  · intro h b hb hmem
    obtain ⟨front, rest, rfl⟩ := List.append_of_mem hb
    obtain ⟨c, hescape, -⟩ := exists_escape_of_mem hmem
    have hlength := congrArg List.length h
    have hfront := length_le_flatMap_escape front
    have hrest := length_le_flatMap_escape rest
    simp only [List.flatMap_append, List.flatMap_cons, hescape, List.length_append, List.length_cons,
      List.length_nil] at hlength
    omega
  · intro h
    induction t with
    | nil => rfl
    | cons b t ih =>
      rw [List.flatMap_cons, escape_of_notMem (h b List.mem_cons_self),
        ih fun c hc => h c (List.mem_cons_of_mem b hc)]
      rfl

end Text.Quoted

/-! ## Places for a name -/

namespace Text

section

variable {b : UInt8} {tail : Text}

theorem joinWith_cons (sep t : Text) {ts : List Text} (hne : ts ≠ []) :
    joinWith sep (t :: ts) = t ++ sep ++ joinWith sep ts := by
  obtain ⟨u, us, rfl⟩ := List.exists_cons_of_ne_nil hne
  rfl

theorem joinWith_append {sep : Text} {ss ts : List Text} (hs : ss ≠ []) (ht : ts ≠ []) :
    joinWith sep (ss ++ ts) = joinWith sep ss ++ sep ++ joinWith sep ts := by
  induction ss with
  | nil => exact absurd rfl hs
  | cons s ss ih =>
    cases ss with
    | nil => exact joinWith_cons sep s ht
    | cons r rs =>
      rw [List.cons_append, joinWith_cons sep s (by simp), ih (by simp), joinWith_cons sep s (by simp)]
      simp only [List.append_assoc]

theorem replaceAux_drop (pat new : Text) : ∀ (skip : Nat) (t : Text),
    replaceAux pat new skip t = replaceAux pat new 0 (t.drop skip)
  | 0, _ => rfl
  | _ + 1, [] => rfl
  | skip + 1, _ :: t => replaceAux_drop pat new skip t

/-- An occurrence at the start is replaced, and the search goes on behind it. -/
theorem replaceAll_append (new t : Text) :
    replaceAll (b :: tail) new (b :: tail ++ t) = new ++ replaceAll (b :: tail) new t := by
  have hstart : (b :: tail).isPrefixOf (b :: (tail ++ t)) = true :=
    List.isPrefixOf_iff_prefix.mpr (List.prefix_append _ _)
  simp only [replaceAll, List.cons_append, replaceAux, if_pos hstart, replaceAux_drop _ _ ((b :: tail).length - 1)]
  simp

/-- A pattern whose first byte stands nowhere else in it does not reach from a text without it into an
occurrence behind that text. -/
theorem not_prefix_append_of_not_infix (hb : b ∉ tail) {t : Text} (hne : t ≠ [])
    (ht : ¬ b :: tail <:+: t) (rest : Text) : ¬ b :: tail <+: t ++ (b :: tail ++ rest) := by
  rintro ⟨behind, h⟩
  rcases List.append_eq_append_iff.mp h with ⟨more, hmore, -⟩ | ⟨more, hpat, hmore⟩
  · exact ht ⟨[], more, hmore.symm⟩
  · obtain ⟨c, front, rfl⟩ := List.exists_cons_of_ne_nil hne
    obtain ⟨rfl, rfl⟩ := List.cons.inj hpat
    cases more with
    | nil => exact ht (by simp)
    | cons d more =>
      obtain ⟨rfl, -⟩ := List.cons.inj hmore
      exact hb (by simp)

/-- What stands in front of the first occurrence is kept. -/
theorem replaceAll_skip (hb : b ∉ tail) (new : Text) {t : Text} (ht : ¬ b :: tail <:+: t)
    (rest : Text) : replaceAll (b :: tail) new (t ++ (b :: tail ++ rest)) =
      t ++ replaceAll (b :: tail) new (b :: tail ++ rest) := by
  induction t with
  | nil => rfl
  | cons c t ih =>
    have hstart : ¬ (b :: tail).isPrefixOf (c :: t ++ (b :: tail ++ rest)) = true := fun h =>
      not_prefix_append_of_not_infix hb (List.cons_ne_nil c t) ht rest (List.isPrefixOf_iff_prefix.mp h)
    have hih := ih fun h => ht (h.trans (List.suffix_cons c t).isInfix)
    rw [List.cons_append] at hstart ⊢
    rw [replaceAll, replaceAux, if_neg hstart]
    exact congrArg (c :: ·) hih

/-- A text without an occurrence stays as it is. -/
theorem replaceAll_of_not_infix (new : Text) {t : Text} (ht : ¬ b :: tail <:+: t) :
    replaceAll (b :: tail) new t = t := by
  induction t with
  | nil => rfl
  | cons c t ih =>
    have hstart : ¬ (b :: tail).isPrefixOf (c :: t) = true := fun h =>
      ht (List.isPrefixOf_iff_prefix.mp h).isInfix
    rw [replaceAll, replaceAux, if_neg hstart]
    exact congrArg (c :: ·) (ih fun h => ht (h.trans (List.suffix_cons c t).isInfix))

end

end Text

namespace Template

/-- `pieces` are what a template holds between the places for the name, and none of them has such a place. -/
structure Cut (template : Text) (pieces : List Text) : Prop where
  joined : joinWith namePlaceholder pieces = template
  bare : ∀ p ∈ pieces, ¬ namePlaceholder <:+: p

/-- Every template can be cut. -/
theorem exists_cut (template : Text) : ∃ pieces, pieces ≠ [] ∧ Cut template pieces := by
  induction hlength : template.length using Nat.strong_induction_on generalizing template with
  | _ len ih =>
    subst hlength
    by_cases h : namePlaceholder <:+: template
    · obtain ⟨front, rest, rfl⟩ := h
      have hpat : 0 < namePlaceholder.length := by decide +kernel
      simp only [List.length_append] at ih
      obtain ⟨ps, hps, hfront⟩ := ih front.length (by omega) front rfl
      obtain ⟨qs, hqs, hrest⟩ := ih rest.length (by omega) rest rfl
      refine ⟨ps ++ qs, by simp [hps], ?_, fun p hp => ?_⟩
      · rw [joinWith_append hps hqs, hfront.joined, hrest.joined]
      · rcases List.mem_append.mp hp with hp | hp
        · exact hfront.bare p hp
        · exact hrest.bare p hp
    · exact ⟨[template], by simp, rfl, fun p hp => by rwa [List.mem_singleton.mp hp]⟩

/-- Replacing puts the name between the pieces of the template, and leaves the pieces and the name as they
are. -/
theorem replaceAll_of_cut {template : Text} {pieces : List Text} (h : Cut template pieces) (name : Text) :
    replaceAll namePlaceholder name template = joinWith name pieces := by
  obtain ⟨b, tail, hpat, hb⟩ : ∃ b tail, namePlaceholder = b :: tail ∧ b ∉ tail :=
    ⟨123, [110, 97, 109, 101, 125], by decide +kernel, by decide⟩
  obtain ⟨rfl, hbare⟩ := h
  rw [hpat] at hbare ⊢
  induction pieces with
  | nil => rfl
  | cons p ps ih =>
    have hp := hbare p List.mem_cons_self
    cases ps with
    | nil => exact replaceAll_of_not_infix name hp
    | cons q qs =>
      have hne : q :: qs ≠ [] := List.cons_ne_nil q qs
      rw [joinWith_cons _ _ hne, joinWith_cons _ _ hne, List.append_assoc, replaceAll_skip hb name hp,
        replaceAll_append, ih fun r hr => hbare r (List.mem_cons_of_mem p hr), List.append_assoc]

end Template

/-! ## The literal of a pair -/

namespace Pair

/-- The lines of a pair that prints `literal`, at a depth. -/
def linesAt (indent : Text) (depth : Nat) (literal identifier : Text) : List Text :=
  [indent.repeated depth ++ (identifier ++ utf8 " := time.Now()"),
    indent.repeated depth ++ utf8 "defer func() \x7b",
    indent.repeated (depth + 1) ++ (utf8 "fmt.Printf(" ++ literal ++ utf8 ", time.Since(" ++ identifier ++
      utf8 "))"),
    indent.repeated depth ++ utf8 "\x7d()"]

theorem run_stmts (indent : Text) (depth : Nat) (template name identifier : Text) :
    Stroke.run indent (Print.sequence depth none (build template name identifier).stmts) =
      .ok (linesAt indent depth (Quoted.encode (reportFormat template name)) identifier) := by
  have hline : ∀ (depth : Int) (t u : Text), u ≠ [] →
      Stroke.indented indent depth (t ++ u) = indent.repeated depth ++ (t ++ u) :=
    fun depth t u hu => if_neg (by simp [hu])
  have hnow := hline depth identifier (utf8 " := time.Now()") (by decide +kernel)
  have hdefer := hline depth [] (utf8 "defer func() \x7b") (by decide +kernel)
  have hprint := hline (depth + 1) (utf8 "fmt.Printf(" ++ Quoted.encode (reportFormat template name) ++
    utf8 ", time.Since(" ++ identifier) (utf8 "))") (by decide +kernel)
  have hbrace := hline depth [] (utf8 "\x7d") (by decide +kernel)
  have hcall : utf8 "\x7d" ++ utf8 "(" ++ [] ++ utf8 ")" = utf8 "\x7d()" := by decide +kernel
  rw [List.nil_append] at hdefer hbrace
  have hseq : Print.sequence depth none (build template name identifier).stmts =
      Print.stmt depth (build template name identifier).start ++
        (Print.stmt depth (build template name identifier).report ++ []) := rfl
  rw [hseq, stmt_start, stmt_report]
  simp only [List.append_nil, List.cons_append, List.nil_append, Stroke.run, Stroke.runFrom, hnow, hdefer,
    hprint, hbrace, Except.map, linesAt, ← hcall]
  simp

theorem newline_notMem_linesAt {indent literal identifier : Text} (hindent : newline ∉ indent)
    (hliteral : newline ∉ literal) (hidentifier : newline ∉ identifier) (depth : Nat) :
    ∀ l ∈ linesAt indent depth literal identifier, newline ∉ l := by
  have hrepeated : ∀ n : Int, newline ∉ indent.repeated n := fun n h => hindent (mem_of_mem_repeated h)
  have hnow : newline ∉ utf8 " := time.Now()" := by decide +kernel
  have hdefer : newline ∉ utf8 "defer func() \x7b" := by decide +kernel
  have hprint : newline ∉ utf8 "fmt.Printf(" := by decide +kernel
  have hsince : newline ∉ utf8 ", time.Since(" := by decide +kernel
  have hclose : newline ∉ utf8 "))" := by decide +kernel
  have hbrace : newline ∉ utf8 "\x7d()" := by decide +kernel
  simp [linesAt, hrepeated, hidentifier, hliteral, hnow, hdefer, hprint, hsince, hclose, hbrace]

/-- **What is written for a text reads back, and a pair prints such a literal.** For every text, `encode`
gives one literal on one line that the language reads as that text; so no two texts share a literal, and
the literal without its quotes is the text exactly where no byte of it takes a backslash. A pair is
four lines at every depth, with one literal on the third. Its value is the template with the name in
every place held for it, and a line feed: a place in the name itself is left as it is. -/
theorem printed_literal :
    (∀ t, Quoted.Spells (Quoted.encode t) t) ∧ Function.Injective Quoted.encode ∧
      (∀ t, Quoted.strip (Quoted.encode t) = t ↔ ∀ b ∈ t, b ∉ Quoted.escaped) ∧
      ∀ (indent template name identifier : Text) (depth : Nat),
        (∀ b ∈ identifier, isNameByte b = true) →
          ∃ literal,
            Stroke.run indent (Print.sequence depth none (build template name identifier).stmts) =
              .ok (linesAt indent depth literal identifier) ∧
            (newline ∉ indent → splitLines (joinLines (linesAt indent depth literal identifier)) =
              linesAt indent depth literal identifier) ∧
            (∃ pieces, Template.Cut template pieces) ∧
            ∀ pieces, Template.Cut template pieces →
              Quoted.Spells literal (joinWith name pieces ++ [newline]) := by
  refine ⟨Quoted.spells_encode, Quoted.encode_injective, Quoted.strip_encode_eq_iff,
    fun indent template name identifier depth hidentifier =>
      ⟨_, run_stmts indent depth template name identifier, fun hindent => ?_, ?_, fun pieces hcut => ?_⟩⟩
  · have hname : newline ∉ identifier := fun h => absurd (hidentifier newline h) (by decide)
    exact splitLines_joinLines (List.cons_ne_nil _ _)
      (newline_notMem_linesAt hindent (newline_notMem_encode _) hname depth)
  · obtain ⟨pieces, -, hcut⟩ := Template.exists_cut template
    exact ⟨pieces, hcut⟩
  · rw [← Template.replaceAll_of_cut hcut]
    exact Quoted.spells_encode _

/-- A name that holds quotes, backslashes and a place of its own, in a template that has a place twice. -/
theorem printed_literal_repeatedName :
    (∀ b ∈ utf8 "__start2", isNameByte b = true) ∧
      ∃ literal,
        Stroke.run [9] (Print.sequence 2 none (build (utf8 "\x7bname\x7d: \x7bname\x7d\n") (utf8 "\"\\\x7bname\x7d")
            (utf8 "__start2")).stmts) = .ok (linesAt [9] 2 literal (utf8 "__start2")) ∧
          splitLines (joinLines (linesAt [9] 2 literal (utf8 "__start2"))) =
            linesAt [9] 2 literal (utf8 "__start2") ∧
          Quoted.Spells literal (utf8 "\"\\\x7bname\x7d: \"\\\x7bname\x7d\n\n") := by
  have hidentifier : ∀ b ∈ utf8 "__start2", isNameByte b = true := by decide +kernel
  have hcut : Template.Cut (utf8 "\x7bname\x7d: \x7bname\x7d\n") [[], utf8 ": ", utf8 "\n"] :=
    ⟨by decide +kernel, by decide +kernel⟩
  have hvalue : joinWith (utf8 "\"\\\x7bname\x7d") [[], utf8 ": ", utf8 "\n"] ++ [newline] =
      utf8 "\"\\\x7bname\x7d: \"\\\x7bname\x7d\n\n" := by decide +kernel
  obtain ⟨literal, hrun, hlines, -, hspells⟩ := printed_literal.2.2.2 [9] (utf8 "\x7bname\x7d: \x7bname\x7d\n")
    (utf8 "\"\\\x7bname\x7d") (utf8 "__start2") 2 hidentifier
  exact ⟨hidentifier, literal, hrun, hlines (by decide), hvalue ▸ hspells _ hcut⟩

end Pair

end Stopwatch
