import Mathlib
import Stopwatch.Proofs.InsertedLines
import Stopwatch.Proofs.SoundParsers

/-!
# Every program can be printed

A file that is loaded through a sound parser has a visible token in each of its pieces. So its declarations
start lines of their own; a pair and an import leave them so, and printing never fails.

* `Load.ready_of_sound`: the declarations of a file loaded from a source.
* `SourceFile.transform_of_ofSource`: a file loaded from a source can be timed and printed.
-/

namespace Stopwatch

/-! ## The pieces of a parsed source -/

/-- The tokens of the piece start with the one that is first in the source. -/
def Piece.Led (p : Piece) : Prop :=
  ∃ l, p.leaves.head? = some l ∧ ∀ m ∈ p.leaves, l.start ≤ m.start ∧ m.start ≤ m.stop

theorem Piece.Led.fragment_ne_nil {p : Piece} (h : p.Led) (text : Text) :
    (p.fragment (Source.ofText text)).2 ≠ [] := by
  obtain ⟨first, hfirst, hall⟩ := h
  have hne : p.leaves ≠ [] := fun hnil => by simp [hnil] at hfirst
  obtain ⟨hstart, hstop⟩ := hall _ (List.getLast_mem hne)
  exact Load.fragment_ne_nil_of_le hfirst (List.getLast?_eq_some_getLast hne) (hstart.trans hstop) text

namespace Load

theorem led_ofItem {i : Item} (h : i.node.Fronted) (depth : Int) : (Piece.ofItem depth i).Led := by
  obtain ⟨l, hl, hstart⟩ := h.first i.parent
  have heq : (Piece.ofItem depth i).leaves = i.node.leaves i.parent := List.append_nil _
  refine ⟨l, heq ▸ hl, fun m hm => ?_⟩
  rw [hstart]
  exact h.behind i.parent m (heq ▸ hm)

/-- The body of a function is behind the first of its tokens, so its signature has one. -/
theorem led_headNodes {c : Cst} (hfronted : c.Fronted) (hheaded : c.Headed) (depth : Int) :
    (⟨depth, c.kind, headNodes c⟩ : Piece).Led := by
  obtain ⟨head, rest, hchildren, hne, hbody⟩ := hheaded
  cases c with
  | node i cs =>
    obtain rfl : cs = head :: rest := hchildren
    have htokens : head.leaves i.kind ≠ [] := hne
    have hnodes : ∃ others, headNodes (.node i (head :: rest)) = head :: others ∧ others.Sublist rest := by
      unfold headNodes
      split
      · next b hb => exact ⟨_, List.filter_cons_of_pos (by simpa using hbody b hb), List.filter_sublist⟩
      · exact ⟨rest, rfl, List.Sublist.refl rest⟩
    obtain ⟨others, heq, hothers⟩ := hnodes
    have hsub : (Cst.leavesAll i.kind (head :: others)).Sublist ((Cst.node i (head :: rest)).leaves "") := by
      have := (hothers.cons_cons head).flatMap (Cst.leaves i.kind)
      rwa [← Cst.leavesAll_eq_flatMap, ← Cst.leavesAll_eq_flatMap] at this
    -- The first token of the function is the first of its first child.
    obtain ⟨l, hl, hstart⟩ := hfronted.first ""
    have hhead : (head.leaves i.kind).head? = some l := by
      have hfirst : (head.leaves i.kind ++ Cst.leavesAll i.kind rest).head? = some l := hl
      rwa [List.head?_append_of_ne_nil _ htokens] at hfirst
    refine ⟨l, ?_, fun m hm => ?_⟩
    · rw [Piece.leaves, heq]
      change (head.leaves i.kind ++ Cst.leavesAll i.kind others).head? = some l
      rw [List.head?_append_of_ne_nil _ htokens, hhead]
    · rw [Piece.leaves, heq] at hm
      rw [hstart]
      exact hfronted.behind "" m (hsub.subset hm)

theorem named_of_mem_itemsOf {list : String} {c : Cst} {i : Item} (hi : i ∈ itemsOf list c) :
    i.node.Within c ∧ i.node.info.named = true := by
  obtain ⟨d, hd, hi⟩ := List.mem_flatMap.mp hi
  obtain ⟨hdmem, hdnamed⟩ := List.mem_filter.mp hd
  cases c with
  | node info cs =>
    split at hi
    · obtain ⟨e, he, rfl⟩ := List.mem_map.mp hi
      obtain ⟨hemem, henamed⟩ := List.mem_filter.mp he
      cases d with
      | node => exact ⟨.child hdmem (.child hemem .self), henamed⟩
    · obtain rfl := List.mem_singleton.mp hi
      exact ⟨.child hdmem .self, hdnamed⟩

/-- The items of the list below a declaration are named nodes of it. -/
theorem named_of_mem_innerItems {c : Cst} {i : Item} (hi : i ∈ innerItems c) :
    i.node.Within c ∧ i.node.info.named = true := by
  unfold innerItems at hi
  split_ifs at hi
  · exact named_of_mem_itemsOf hi
  · cases hbody : c.childByField? "body" with
    | none => simp [hbody] at hi
    | some b =>
      rw [hbody] at hi
      obtain ⟨hwithin, hnamed⟩ := named_of_mem_itemsOf hi
      exact ⟨hwithin.trans (within_of_childByField? .self hbody), hnamed⟩
  · cases hi

/-- Each piece of a tree without an error starts with the first of its tokens. -/
theorem led_of_mem_pieces {parse : Parser} (hsound : parse.Sound) {text : Text} {source : Source}
    (herror : (parse text).hasError = false) {p : Piece} (hp : p ∈ pieces source (parse text)) : p.Led := by
  obtain ⟨b, hb, hp⟩ := List.mem_flatMap.mp hp
  obtain ⟨c, hc, hitem⟩ := List.mem_map.mp (mem_of_mem_sortedBlocks source hb)
  have hnode : b.1.node = c := hitem ▸ rfl
  have hnamed := (List.mem_filter.mp hc).2
  obtain ⟨depth, j, rfl, hj⟩ | ⟨hkind, rfl⟩ := itemPieces_cases source hp
  · rcases hj with rfl | hj
    · exact led_ofItem (hnode ▸ hsound.fronted text herror c hc c .self hnamed) depth
    · obtain ⟨hwithin, hjnamed⟩ := named_of_mem_innerItems hj
      exact led_ofItem (hsound.fronted text herror c hc j.node (hnode ▸ hwithin) hjnamed) depth
  · rw [hnode] at hkind ⊢
    exact led_headNodes (hsound.fronted text herror c hc c .self hnamed) (hsound.headed text herror c hc hkind) 0

theorem hasError_of_ofCst {text : Text} {root : Cst} {f : SourceFile} (h : SourceFile.ofCst text root = .ok f) :
    root.hasError = false := by
  unfold SourceFile.ofCst at h
  split at h
  · cases h
  · next herror => simpa using herror

/-- **The declarations of a source** are as loading makes them, and none of their fragments is empty. -/
theorem ready_of_sound {parse : Parser} (hsound : parse.Sound) {text : Text}
    (herror : (parse text).hasError = false) {n : Node}
    (hn : n ∈ (SourceFile.build (Source.ofText text) (parse text)).decls) : n.Ready :=
  ready_of_fragments (fun _ hp => (led_of_mem_pieces hsound herror hp).fragment_ne_nil text) hn

end Load

/-! ## Printing after the transformation -/

/-- A declaration starts a line of its own, and an import declaration has only entries. -/
structure Node.Printable (n : Node) : Prop where
  opens : Stroke.Opens (Print.decl n)
  entries : ∀ m entries grouped, n = .importDecl m entries grouped → entries.all Node.isEntry = true

namespace Print

theorem opens_decls_of_opens (before : Option Mark) {ns : List Node}
    (h : ∀ n ∈ ns, Stroke.Opens (decl n)) : Stroke.Opens (decls before ns) := by
  induction ns generalizing before with
  | nil => exact Stroke.opens_nil
  | cons n ns ih =>
    obtain ⟨hn, hns⟩ := List.forall_mem_cons.mp h
    exact ((opens_blank _).append hn).append (ih _ hns)

/-- An import declaration starts with its keyword. -/
theorem printable_importDecl (m : Mark) {entries : List Node} (grouped : Bool)
    (h : entries.all Node.isEntry = true) : (Node.importDecl m entries grouped).Printable where
  opens := by
    obtain ⟨t, rest, heq⟩ := importDecl_eq_cons entries grouped
    have hplain := isPlain_decl (n := .importDecl m entries grouped) h
    rw [decl, heq] at hplain ⊢
    exact (opens_line_append hplain).1
  entries := by
    rintro _ _ _ ⟨⟩
    exact h

end Print

/-- A pair leaves a declaration printable. -/
theorem Node.Ready.printable_instrument {n : Node} (h : n.Ready) (s : Settings) (p : Progress) :
    (n.instrument s.plan p).1.Printable := by
  obtain ⟨fs, -, -, hopens, -⟩ := DeclTimed.of_instrument (s := s) h p
  refine ⟨hopens, fun m entries grouped heq => ?_⟩
  cases hn : n.isTimed (utf8 s.skipPrefix) with
  | false =>
    rw [instrument_of_not_isTimed s.plan h.declaration hn] at heq
    obtain rfl : n = _ := heq
    exact h.declaration
  | true =>
    obtain ⟨m, head, b, rfl⟩ := exists_of_isTimed hn
    rw [instrument_of_isTimed s.plan h.declaration hn] at heq
    cases heq

theorem printable_of_mem_instrumentAll {ns : List Node} (h : ∀ n ∈ ns, n.Ready) (s : Settings)
    (p : Progress) : ∀ n ∈ (instrumentAll s.plan ns p).1, n.Printable := by
  induction ns generalizing p with
  | nil => simp [instrumentAll]
  | cons n ns ih =>
    obtain ⟨hn, hns⟩ := List.forall_mem_cons.mp h
    exact List.forall_mem_cons.mpr ⟨hn.printable_instrument s p, ih hns _⟩

/-- What declarations keep when an import is added, and a new one has. -/
structure Imports.Adds (P : Node → Prop) : Prop where
  entry : ∀ path m left right grouped grouped', P (.importDecl m (left ++ right) grouped) →
    P (.importDecl m (left ++ newEntry path :: right) grouped')
  decl : ∀ path, P (.importDecl {} [newEntry path] false)

/-- A new import leaves declarations with what they have. -/
theorem Imports.Added.forall_adds {P : Node → Prop} (hP : Adds P) {path : Text} {ds es : List Node}
    (h : Added path ds es) (hds : ∀ n ∈ ds, P n) : ∀ n ∈ es, P n := by
  cases h with
  | entry before after m left right grouped =>
    obtain ⟨hbefore, hrest⟩ := List.forall_mem_append.mp hds
    obtain ⟨hdecl, hafter⟩ := List.forall_mem_cons.mp hrest
    exact List.forall_mem_append.mpr
      ⟨hbefore, List.forall_mem_cons.mpr ⟨hP.entry path m left right grouped _ hdecl, hafter⟩⟩
  | decl before after =>
    obtain ⟨hbefore, hafter⟩ := List.forall_mem_append.mp hds
    exact List.forall_mem_append.mpr ⟨hbefore, List.forall_mem_cons.mpr ⟨hP.decl path, hafter⟩⟩

theorem Imports.AddedAll.forall_adds {P : Node → Prop} (hP : Adds P) {paths : List Text}
    {ds es : List Node} (h : AddedAll paths ds es) (hds : ∀ n ∈ ds, P n) : ∀ n ∈ es, P n := by
  induction h with
  | nil => exact hds
  | cons first _ ih => exact ih (first.forall_adds hP hds)

/-- What an import declaration has as soon as it holds entries only. -/
def Imports.OfEntries (P : Node → Prop) : Prop :=
  ∀ m entries grouped, P (.importDecl m entries grouped) ↔ entries.all Node.isEntry = true

theorem Imports.OfEntries.adds {P : Node → Prop} (hP : OfEntries P) : Adds P where
  entry path m left right grouped grouped' hold := by
    have hentries := (hP _ _ _).mp hold
    rw [List.all_append, Bool.and_eq_true] at hentries
    refine (hP _ _ _).mpr ?_
    rw [List.all_append, List.all_cons, hentries.1, hentries.2]
    rfl
  decl path := (hP _ _ _).mpr rfl

theorem Imports.AddedAll.forall_of {P : Node → Prop} (hP : OfEntries P) {paths : List Text}
    {ds es : List Node} (h : AddedAll paths ds es) (hds : ∀ n ∈ ds, P n) : ∀ n ∈ es, P n :=
  h.forall_adds hP.adds hds

theorem Node.printable_ofEntries : Imports.OfEntries Node.Printable := by
  intro m entries grouped
  exact ⟨fun h => h.entries m entries grouped rfl, Print.printable_importDecl m grouped⟩

/-- **A file loaded from a source can be timed and printed.** -/
theorem SourceFile.transform_of_ofSource {parse : Parser} (hsound : parse.Sound) {text : Text} {f : SourceFile}
    (h : ofSource text parse = .ok f) (s : Settings) : ∃ t, f.transform s = .ok t := by
  have herror := Load.hasError_of_ofCst h
  obtain ⟨rfl, -⟩ := Load.ofCst_ok h
  set f := build (Source.ofText text) (parse text)
  have hready : ∀ n ∈ f.decls, n.Ready := fun n hn => Load.ready_of_sound hsound herror hn
  have htimed := printable_of_mem_instrumentAll hready s ⟨⟨f.identifiers⟩, []⟩
  have hall := (ensureImports_added (f.instrument s.plan ⟨f.identifiers⟩).1 requiredImports).2.2
  have hprintable := hall.forall_of Node.printable_ofEntries htimed
  have hopens := Print.opens_decls_of_opens none fun n hn => (hprintable n hn).opens
  have hrender := render_of_opens (f := ((f.instrument s.plan ⟨f.identifiers⟩).1.ensureImports
    requiredImports).2) hopens s.indent
  simp only [transform, hrender]
  exact ⟨_, rfl⟩

end Stopwatch
