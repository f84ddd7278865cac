import Mathlib
import Stopwatch.Proofs.Programs

/-!
# Printing twice

The printed text of a file, read again, is printed as it is. Nothing is assumed of the parser but that it
finds in the printed text the items of the file again, each with the same tokens.

* `Load.Alike`: the items of one tree are those of another one.
* `Load.render_again`: the printed text is a fixed point.
-/

namespace Stopwatch

open Text Layout

/-! ## The same items in two trees -/

instance (text text' : Text) (l l' : Leaf) : Decidable (Leaf.Same text text' l l') :=
  decidable_of_iff (l'.kind = l.kind ∧ l'.parent = l.parent ∧ (l'.word text' = l.word text ∨
      l.kind = "comment" ∧ trimEnd (l'.word text') = trimEnd (l.word text) ∧
        (l'.word text').count newline = (l.word text).count newline))
    ⟨fun ⟨hkind, hparent, hword⟩ => ⟨hkind, hparent, hword⟩, fun h => ⟨h.kind, h.parent, h.word⟩⟩

/-- Two items of the same kind with the same tokens. -/
structure Item.Same (text text' : Text) (i i' : Item) : Prop where
  kind : i'.node.kind = i.node.kind
  tokens : List.Forall₂ (Leaf.Same text text') i.leaves i'.leaves

/-- Two entries of import declarations, with the same tokens in each role. -/
structure Item.SameEntry (text text' : Text) (e e' : Item) : Prop extends e.Same text text' e' where
  name : List.Forall₂ (Leaf.Same text text') (e.node.roleLeaves "name") (e'.node.roleLeaves "name")
  path : List.Forall₂ (Leaf.Same text text') (e.node.roleLeaves "path") (e'.node.roleLeaves "path")

namespace Load

/-- The items `is` of `text'` are those of the blocks `bs` of `text`, one for one. A comment behind an item
is taken as it is printed, and stands on one row. -/
inductive Alike (text text' : Text) (same : Item → Item → Prop) :
    List (Item × Option Item) → List Item → Prop
  | nil : Alike text text' same [] []
  | alone {i i' : Item} {bs : List (Item × Option Item)} {is : List Item} (hi : same i i')
      (h : Alike text text' same bs is) : Alike text text' same ((i, none) :: bs) (i' :: is)
  | followed {i i' c c' : Item} {bs : List (Item × Option Item)} {is : List Item} (hi : same i i')
      (hkind : c'.node.kind = "comment")
      (hword : trimEnd (c'.node.text (Source.ofText text')) =
        (c.node.text (Source.ofText text)).trimEndWide)
      (hclean : newline ∉ c'.node.text (Source.ofText text')) (h : Alike text text' same bs is) :
      Alike text text' same ((i, some c) :: bs) (i' :: c' :: is)

/-- Two declarations with the same tokens. The lists of import declarations and of functions are compared
item by item. -/
inductive SameDecl (text text' : Text) : Item → Item → Prop
  | whole {i i' : Item} (himport : i.node.kind ≠ "import_declaration")
      (hfunction : isFunctionKind i.node.kind = false) (h : i.Same text text' i') :
      SameDecl text text' i i'
  | imports {i i' : Item} (hkind : i.node.kind = "import_declaration")
      (hkind' : i'.node.kind = "import_declaration")
      (hgrouped : i'.node.namedChildren.any (·.kind == "import_spec_list") =
        i.node.namedChildren.any (·.kind == "import_spec_list"))
      (h : Alike text text' (Item.SameEntry text text')
        (sortedBlocks (Source.ofText text) (itemsOf "import_spec_list" i.node))
        (itemsOf "import_spec_list" i'.node)) : SameDecl text text' i i'
  | signature {i i' : Item} (hfunction : isFunctionKind i.node.kind = true)
      (hbody : i.node.childByField? "body" = none) (hbody' : i'.node.childByField? "body" = none)
      (h : i.Same text text' i') : SameDecl text text' i i'
  | function {i i' : Item} {b b' : Cst} (hfunction : isFunctionKind i.node.kind = true)
      (hkind : i'.node.kind = i.node.kind) (hbody : i.node.childByField? "body" = some b)
      (hbody' : i'.node.childByField? "body" = some b')
      (hhead : List.Forall₂ (Leaf.Same text text') (headLeaves i.node) (headLeaves i'.node))
      (h : Alike text text' (Item.Same text text')
        (sortedBlocks (Source.ofText text) (itemsOf "statement_list" b))
        (itemsOf "statement_list" b')) : SameDecl text text' i i'

end Load

/-- Without a body, the tokens of a function are those of its signature. -/
theorem Load.headLeaves_eq {i : Item} (hbody : i.node.childByField? "body" = none)
    (hne : headLeaves i.node ≠ []) : headLeaves i.node = i.leaves := by
  have hnodes : headNodes i.node = i.node.children := by simp only [headNodes, hbody]
  rw [headLeaves, hnodes] at hne ⊢
  have hchildren : i.node.children ≠ [] := by
    intro hnil
    rw [hnil] at hne
    exact hne rfl
  exact (Cst.leaves_of_children_ne_nil i.parent hchildren).symm

/-! ## Lines that spell their tokens -/

theorem flatMap_word_of_same {text text' : Text} {ls ls' : List Leaf}
    (h : List.Forall₂ (Leaf.Same text text') ls ls') (hplain : ∀ l ∈ ls, l.kind ≠ "comment") :
    ls'.flatMap (Leaf.word text') = ls.flatMap (Leaf.word text) := by
  induction h with
  | nil => rfl
  | @cons l l' ls ls' hl _ ih =>
    have hword : l'.word text' = l.word text :=
      hl.word.resolve_right fun hcomment => hplain l List.mem_cons_self hcomment.1
    rw [List.flatMap_cons, List.flatMap_cons, hword, ih fun k hk => hplain k (List.mem_cons_of_mem l hk)]

namespace Item.IsEntry

variable {text : Text} {e : Item}

/-- What an entry is printed as, by its tokens. -/
theorem entryText_eq (h : e.IsEntry text) : Load.entryText text e =
    (if e.node.roleLeaves "name" = [] then []
      else (e.node.roleLeaves "name").flatMap (Leaf.word text) ++ [32]) ++
        (e.node.roleLeaves "path").flatMap (Leaf.word text) := by
  obtain ⟨p, hp, hpath⟩ := h.path
  rw [Load.entryText, Cst.roleLeaves, Cst.roleLeaves, hp]
  cases hname : e.node.childByField? "name" with
  | none => exact hpath.text_eq
  | some n =>
    have hn := h.name n hname
    simp [Print.importSpec, hn.text_eq, hn.visible, hpath.text_eq]

theorem path_ne_nil (h : e.IsEntry text) : e.node.roleLeaves "path" ≠ [] := by
  obtain ⟨p, hp, hpath⟩ := h.path
  rw [Cst.roleLeaves, hp]
  exact hpath.visible

theorem plain (h : e.IsEntry text) :
    (∀ l ∈ e.node.roleLeaves "name", l.kind ≠ "comment") ∧
      ∀ l ∈ e.node.roleLeaves "path", l.kind ≠ "comment" := by
  obtain ⟨p, hp, hpath⟩ := h.path
  refine ⟨fun l hl => ?_, fun l hl => ?_⟩
  · rw [Cst.roleLeaves] at hl
    cases hname : e.node.childByField? "name" with
    | none => simp [hname] at hl
    | some n =>
      rw [hname] at hl
      exact (h.name n hname).plain l hl
  · rw [Cst.roleLeaves, hp] at hl
    exact hpath.plain l hl

theorem spelled (h : e.IsEntry text) : Spelled text (Load.entryText text e) e.leaves := by
  rw [h.entryText_eq, h.leaves]
  have hpath := Spelled.words text (e.node.roleLeaves "path")
  split
  · next hname =>
    rw [hname]
    exact hpath
  · rw [List.append_assoc]
    exact (Spelled.words text _).append (hpath.pad padding_space h.path_ne_nil)

/-- Entries with the same tokens are printed alike. -/
theorem entryText_of_same {text' : Text} {e' : Item} (h : e.IsEntry text) (h' : e'.IsEntry text')
    (hsame : e.SameEntry text text' e') : Load.entryText text' e' = Load.entryText text e := by
  obtain ⟨hname, hpath⟩ := h.plain
  have hnil : e'.node.roleLeaves "name" = [] ↔ e.node.roleLeaves "name" = [] := by
    rw [← List.length_eq_zero_iff, ← hsame.name.length_eq, List.length_eq_zero_iff]
  rw [h.entryText_eq, h'.entryText_eq, flatMap_word_of_same hsame.name hname,
    flatMap_word_of_same hsame.path hpath]
  simp only [hnil]

end Item.IsEntry

/-! ## Items read again -/

section Again

variable {text printed indent : Text} {root root' : Cst} {i i' : Item} (h : root.IsProgram text)
  (h' : root'.IsProgram printed) (hindent : ∀ b ∈ indent, isBlank b = true) (hclean : newline ∉ indent)

include h h' hindent hclean

/-- Items that are kept as text. -/
theorem Item.Same.rereads {x : Reading} {depth : Int} (hsame : i.Same text printed i')
    (hi : i ∈ Load.allItems root) (hi' : i' ∈ Load.allItems root') (htext : x.text = text)
    (hprinted : x.printed = printed) (hxindent : x.indent = indent)
    (hprint : x.print (x.old i) = Print.fragment depth (Leaf.fragment text i.leaves))
    (hprint' : x.print (x.new i') = Print.fragment depth (Leaf.fragment printed i'.leaves)) :
    x.Rereads i i' i'.leaves := by
  subst htext hprinted hxindent
  exact Reading.Rereads.of_fragment hprint hprint' (h.laid hi) (h'.laid hi') (h.items i hi).visible
    hsame.tokens (h'.items i' hi').toSpans hindent hclean

theorem Item.Same.rereads_stmt (hsame : i.Same text printed i') (hi : i ∈ Load.allItems root)
    (hi' : i' ∈ Load.allItems root') :
    (Reading.stmts text printed indent).Rereads i i' i'.leaves :=
  hsame.rereads h h' hindent hclean hi hi' rfl rfl rfl (Load.print_stmt text i 1)
    (Load.print_stmt printed i' 1)

theorem Item.SameEntry.rereads (hsame : i.SameEntry text printed i') (hi : i ∈ Load.allItems root)
    (hi' : i' ∈ Load.allItems root') (hentry : i.node.kind ≠ "comment" → i.IsEntry text)
    (hentry' : i'.node.kind ≠ "comment" → i'.IsEntry printed) :
    (Reading.entries text printed indent).Rereads i i' i'.leaves := by
  by_cases hkind : i.node.kind = "comment"
  · exact hsame.toSame.rereads h h' hindent hclean hi hi' rfl rfl rfl
      (Load.print_comment text hkind _ 1).1
      (Load.print_comment printed (hsame.kind.trans hkind) _ 1).1
  · have hkind' : i'.node.kind ≠ "comment" := by rwa [hsame.kind]
    have htext := (hentry hkind).entryText_of_same (hentry' hkind') hsame
    have hprint' := Load.print_entry printed hkind' 1
    have hspelled := (hentry' hkind').spelled
    rw [htext] at hprint' hspelled
    exact Reading.Rereads.of_spelled (x := Reading.entries text printed indent)
      (Load.print_entry text hkind 1) hprint' hspelled (h'.items i' hi').visible (h'.laid hi')
      (h'.items i' hi').toSpans hindent hclean

/-- A package clause. -/
theorem Item.Same.rereads_package (hsame : i.Same text printed i') (hi : i ∈ Load.topItems root)
    (hi' : i' ∈ Load.topItems root') (hkind : i.node.kind = "package_clause") :
    (Reading.decls text printed indent).Rereads i i' i'.leaves := by
  have hkind' := hsame.kind.trans hkind
  obtain ⟨kw, name, hhead, hname, hleaves, -⟩ := h.packages i hi hkind
  obtain ⟨kw', name', hhead', hname', hleaves', hkw⟩ := h'.packages i' hi' hkind'
  have htokens := hsame.tokens
  rw [hleaves, hleaves'] at htokens
  have hprint := Load.print_package text hkind
  have hprint' := Load.print_package printed hkind'
  rw [hhead, Option.getD_some, hname.text_eq] at hprint
  rw [hhead', Option.getD_some, hname'.text_eq,
    flatMap_word_of_same (List.forall₂_cons.mp htokens).2 hname.plain] at hprint'
  have hspelled : Spelled printed (utf8 "package " ++
      (name.leaves i.node.kind).flatMap (Leaf.word text)) i'.leaves := by
    have hsplit : utf8 "package " = utf8 "package" ++ [32] := by decide +kernel
    rw [hsplit, ← hkw, ← flatMap_word_of_same (List.forall₂_cons.mp htokens).2 hname.plain, hleaves',
      List.append_assoc]
    exact (Spelled.token printed kw').append ((Spelled.words printed _).pad padding_space hname'.visible)
  have hmem' := Cst.IsProgram.top_mem hi'
  exact Reading.Rereads.of_spelled (x := Reading.decls text printed indent) hprint hprint' hspelled
    (h'.items i' hmem').visible (h'.laid hmem') (h'.items i' hmem').toSpans hindent hclean

omit h hindent hclean in
/-- A list of items. -/
theorem Load.Alike.readsAll {x : Reading} {same : Item → Item → Prop} {bs : List (Item × Option Item)}
    {is : List Item} (hx : x.Faithful) (hprinted : x.printed = printed)
    (halike : Load.Alike x.text printed same bs is) (his : ∀ i' ∈ is, i' ∈ Load.allItems root')
    (hsame : ∀ b ∈ bs, ∀ i' ∈ is, same b.1 i' → ∃ ls, ls.Sublist i'.leaves ∧ x.Rereads b.1 i' ls) :
    ∃ ls, ls.Sublist (is.flatMap Item.leaves) ∧ x.ReadsAll bs is ls := by
  subst hprinted
  induction halike with
  | nil => exact ⟨[], List.Sublist.refl _, .nil⟩
  | @alone i i' bs is hi _ ih =>
    obtain ⟨ls, hls, hreads⟩ := hsame _ List.mem_cons_self _ List.mem_cons_self hi
    obtain ⟨ms, hms, hrest⟩ := ih (fun j hj => his j (List.mem_cons_of_mem _ hj))
      fun b hb j hj => hsame b (List.mem_cons_of_mem _ hb) j (List.mem_cons_of_mem _ hj)
    exact ⟨ls ++ ms, hls.append hms, .cons hreads.alone hrest⟩
  | @followed i i' c c' bs is hi hkind hword hcomment _ ih =>
    obtain ⟨ls, hls, hreads⟩ := hsame _ List.mem_cons_self _ List.mem_cons_self hi
    obtain ⟨ms, hms, hrest⟩ := ih
      (fun j hj => his j (List.mem_cons_of_mem _ (List.mem_cons_of_mem _ hj)))
      fun b hb j hj =>
        hsame b (List.mem_cons_of_mem _ hb) j (List.mem_cons_of_mem _ (List.mem_cons_of_mem _ hj))
    have hc' := his c' (List.mem_cons_of_mem _ List.mem_cons_self)
    have hformed := h'.items c' hc'
    refine ⟨ls ++ c'.leaves ++ ms, ?_, .cons (hreads.followed hx
      ⟨hkind, h'.laid hc', hformed.visible, hformed.toSpans, hword, hcomment⟩) hrest⟩
    rw [List.append_assoc]
    exact hls.append ((List.Sublist.refl _).append hms)

/-- An import declaration. -/
theorem Load.Alike.rereads_imports (hi : i ∈ Load.topItems root) (hi' : i' ∈ Load.topItems root')
    (hkind : i.node.kind = "import_declaration") (hkind' : i'.node.kind = "import_declaration")
    (hgrouped : i'.node.namedChildren.any (·.kind == "import_spec_list") =
      i.node.namedChildren.any (·.kind == "import_spec_list"))
    (halike : Load.Alike text printed (Item.SameEntry text printed)
      (Load.sortedBlocks (Source.ofText text) (Load.itemsOf "import_spec_list" i.node))
      (Load.itemsOf "import_spec_list" i'.node)) :
    ∃ ls, ls.Sublist i'.leaves ∧ (Reading.decls text printed indent).Rereads i i' ls := by
  have himport := h.imports i hi hkind
  have himport' := h'.imports i' hi' hkind'
  have hmem' := Cst.IsProgram.top_mem hi'
  obtain ⟨kw, -, hshape⟩ := himport.keyword
  obtain ⟨kw', hkw', hshape'⟩ := himport'.keyword
  rw [hgrouped] at hshape'
  cases hany : i.node.namedChildren.any (·.kind == "import_spec_list") with
  | true =>
    rw [hany, if_pos rfl] at hshape'
    have hitems' : ∀ e ∈ Load.itemsOf "import_spec_list" i'.node, e ∈ Load.allItems root' :=
      fun e he => Cst.IsProgram.entry_mem hi' hkind' he
    obtain ⟨o, cl, hbrackets⟩ :=
      hshape'.exists_brackets h' hi' hitems' (by decide +kernel) (by decide +kernel)
    obtain ⟨ls, hls, hlist⟩ := halike.readsAll (x := Reading.entries text printed indent) h'
      (Reading.faithful_entries text printed indent) rfl hitems' fun b hb e he hsame =>
        have hmem := Load.mem_of_mem_sortedBlocks _ hb
        ⟨e.leaves, List.Sublist.refl _, hsame.rereads h h' hindent hclean
          (Cst.IsProgram.entry_mem hi hkind hmem) (hitems' e he) (himport.entries b.1 hmem)
          (himport'.entries e he)⟩
    rw [← hbrackets.order] at hlist
    obtain ⟨hlaid, hfirst⟩ := h'.laid_front hmem' (by simp) hbrackets.front_prefix
    have hkeyword := h'.reads ((Cst.IsProgram.leaves_isInfix hmem').subset
      (List.mem_of_mem_head? hfirst)) hkw' (by decide +kernel)
    exact ⟨_, hbrackets.between ls hls, Reading.Rereads.of_imports hkind hkind' hany
      (hgrouped.trans hany) hlist hkeyword hbrackets.opens hbrackets.closes hlaid hfirst hbrackets.last
      (h'.items i' hmem').toSpans⟩
  | false =>
    rw [hany, if_neg (by simp)] at hshape hshape'
    obtain ⟨e, hitems, hcomment, -⟩ := hshape
    obtain ⟨e', hitems', hcomment', hleaves'⟩ := hshape'
    rw [hitems, hitems', Load.sortedBlocks_singleton] at halike
    have hsame : e.SameEntry text printed e' := by
      cases halike with
      | alone hi _ => exact hi
    have hentry := himport.entries e (by simp [hitems]) hcomment
    have hentry' := himport'.entries e' (by simp [hitems']) hcomment'
    have htext := hentry.entryText_of_same hentry' hsame
    have hprint := Load.print_import text hkind hany hitems hcomment
    have hprint' := Load.print_import printed hkind' (hgrouped.trans hany) hitems' hcomment'
    rw [htext] at hprint'
    have hspelled : Spelled printed (utf8 "import " ++ Load.entryText text e) i'.leaves := by
      have hsplit : utf8 "import " = utf8 "import" ++ [32] := by decide +kernel
      rw [hsplit, ← hkw', ← htext, hleaves', List.append_assoc]
      refine (Spelled.token printed kw').append (hentry'.spelled.pad padding_space ?_)
      exact (h'.items e' (Cst.IsProgram.entry_mem hi' hkind' (by simp [hitems']))).visible
    exact ⟨i'.leaves, List.Sublist.refl _, Reading.Rereads.of_spelled
      (x := Reading.decls text printed indent) hprint hprint' hspelled (h'.items i' hmem').visible
      (h'.laid hmem') (h'.items i' hmem').toSpans hindent hclean⟩

/-- A function with a body. -/
theorem Load.Alike.rereads_function {b b' : Cst} (hi : i ∈ Load.topItems root)
    (hi' : i' ∈ Load.topItems root') (hfunction : Load.isFunctionKind i.node.kind = true)
    (hkind : i'.node.kind = i.node.kind) (hbody : i.node.childByField? "body" = some b)
    (hbody' : i'.node.childByField? "body" = some b')
    (hhead : List.Forall₂ (Leaf.Same text printed) (Load.headLeaves i.node) (Load.headLeaves i'.node))
    (halike : Load.Alike text printed (Item.Same text printed)
      (Load.sortedBlocks (Source.ofText text) (Load.itemsOf "statement_list" b))
      (Load.itemsOf "statement_list" b')) :
    ∃ ls, ls.Sublist i'.leaves ∧ (Reading.decls text printed indent).Rereads i i' ls := by
  have hfunction' : Load.isFunctionKind i'.node.kind = true := by rwa [hkind]
  have hmem := Cst.IsProgram.top_mem hi
  have hmem' := Cst.IsProgram.top_mem hi'
  obtain ⟨hne, hshape⟩ := h.functions i hi hfunction
  obtain ⟨hne', hshape'⟩ := h'.functions i' hi' hfunction'
  have hitems : ∀ e ∈ Load.itemsOf "statement_list" b, e ∈ Load.allItems root :=
    fun e he => Cst.IsProgram.stmt_mem hi hfunction hbody he
  have hitems' : ∀ e ∈ Load.itemsOf "statement_list" b', e ∈ Load.allItems root' :=
    fun e he => Cst.IsProgram.stmt_mem hi' hfunction' hbody' he
  obtain ⟨_, _, hbrackets⟩ :=
    (hshape b hbody).exists_brackets h hi hitems (by decide +kernel) (by decide +kernel)
  obtain ⟨o, cl, hbrackets'⟩ :=
    (hshape' b' hbody').exists_brackets h' hi' hitems' (by decide +kernel) (by decide +kernel)
  obtain ⟨hlaid, -⟩ := h.laid_front hmem hne ((List.prefix_append _ _).trans hbrackets.front_prefix)
  obtain ⟨hlaid', hfirst'⟩ :=
    h'.laid_front hmem' hne' ((List.prefix_append _ _).trans hbrackets'.front_prefix)
  obtain ⟨ls, hls, hlist⟩ := halike.readsAll (x := Reading.stmts text printed indent) h'
    (Reading.faithful_stmts text printed indent) rfl hitems' fun b hb e he hsame =>
      ⟨e.leaves, List.Sublist.refl _, hsame.rereads_stmt h h' hindent hclean
        (hitems b.1 (Load.mem_of_mem_sortedBlocks _ hb)) (hitems' e he)⟩
  rw [← hbrackets'.order] at hlist
  exact ⟨_, hbrackets'.between ls hls, Reading.Rereads.of_function hfunction hfunction' hbody hbody'
    hlist hlaid hlaid' hne hhead hbrackets'.opens hbrackets'.closes hfirst' hbrackets'.last
    (h'.items i' hmem').toSpans hindent hclean⟩

/-- **A declaration** is read again as it was. -/
theorem Load.SameDecl.rereads (hsame : Load.SameDecl text printed i i') (hi : i ∈ Load.topItems root)
    (hi' : i' ∈ Load.topItems root') :
    ∃ ls, ls.Sublist i'.leaves ∧ (Reading.decls text printed indent).Rereads i i' ls := by
  have hmem := Cst.IsProgram.top_mem hi
  have hmem' := Cst.IsProgram.top_mem hi'
  cases hsame with
  | whole himport hfunction hsame =>
    refine ⟨i'.leaves, List.Sublist.refl _, ?_⟩
    by_cases hpackage : i.node.kind = "package_clause"
    · exact hsame.rereads_package h h' hindent hclean hi hi' hpackage
    · refine hsame.rereads h h' hindent hclean hmem hmem' rfl rfl rfl
        (Load.print_decl text hpackage himport hfunction) (Load.print_decl printed ?_ ?_ ?_)
      · rwa [hsame.kind]
      · rwa [hsame.kind]
      · rwa [hsame.kind]
  | imports hkind hkind' hgrouped halike =>
    exact halike.rereads_imports h h' hindent hclean hi hi' hkind hkind' hgrouped
  | signature hfunction hbody hbody' hsame =>
    have hfunction' : Load.isFunctionKind i'.node.kind = true := by rwa [hsame.kind]
    have hprint := Load.print_signature text hfunction hbody
    have hprint' := Load.print_signature printed hfunction' hbody'
    rw [Load.headLeaves_eq hbody (h.functions i hi hfunction).head] at hprint
    rw [Load.headLeaves_eq hbody' (h'.functions i' hi' hfunction').head] at hprint'
    exact ⟨i'.leaves, List.Sublist.refl _,
      hsame.rereads h h' hindent hclean hmem hmem' rfl rfl rfl hprint hprint'⟩
  | function hfunction hkind hbody hbody' hhead halike =>
    exact halike.rereads_function h h' hindent hclean hi hi' hfunction hkind hbody hbody' hhead

end Again

/-! ## The file -/

/-- A text is what is left of it without line feeds at the end, and these. -/
theorem exists_eq_dropFinalNewlines_append (t : Text) :
    ∃ k, t = dropFinalNewlines t ++ List.replicate k newline := by
  refine ⟨(t.reverse.takeWhile (· == newline)).length, ?_⟩
  have hline : t.reverse.takeWhile (· == newline) =
      List.replicate (t.reverse.takeWhile (· == newline)).length newline :=
    List.eq_replicate_iff.mpr ⟨rfl, fun b hb => by simpa using List.mem_takeWhile_imp hb⟩
  have hsplit := congrArg List.reverse
    (List.takeWhile_append_dropWhile (p := (· == newline)) (l := t.reverse))
  rw [List.reverse_append, List.reverse_reverse, hline, List.reverse_replicate] at hsplit
  exact hsplit.symm

/-- Tokens that have as many bytes as the lines of a file stand side by side in its text. -/
theorem Part.of_finished {printed : Text} {lines : List Text} {ls : List Leaf}
    (hprinted : finished lines = printed) (hordered : ls.Pairwise fun a b => a.stop ≤ b.start)
    (hbounds : ∀ l ∈ ls, l.start ≤ l.stop ∧ l.stop ≤ printed.length)
    (hcount : solidCount printed ls = (solid (joinLines lines)).length) :
    Part printed [] (joinLines lines) [newline] [] ls := by
  subst hprinted
  obtain ⟨k, hk⟩ := exists_eq_dropFinalNewlines_append (joinLines lines)
  have hblank : ∀ n, solid (List.replicate n newline) = [] := fun n =>
    solid_eq_nil fun b hb => by rw [List.eq_of_mem_replicate hb]; decide
  have hsolid : solid (finished lines) = solid (joinLines lines) := by
    rw [hk, finished, solid_append, solid_append, hblank k]
    rfl
  refine ⟨⟨List.replicate k newline, ?_⟩, ?_, rfl, hcount⟩
  · conv_rhs => rw [List.nil_append, hk, List.append_assoc, ← List.replicate_succ']
    rw [finished, List.append_assoc, List.replicate_succ]
    rfl
  · refine tiles_of_solidCount hordered (fun l hl => ⟨Nat.zero_le _, hbounds l hl⟩) ?_
    rw [List.nil_append, List.drop_zero, hsolid, hcount]

theorem SourceFile.render_congr {f g : SourceFile} (h : f.strokes = g.strokes) (indent : Text) :
    f.render indent = g.render indent := by
  rw [render, render, h]

/-- A package clause is read again. -/
theorem Load.Alike.exists_package {text text' : Text} {bs : List (Item × Option Item)} {is : List Item}
    (h : Alike text text' (SameDecl text text') bs is)
    (hpackage : ∃ b ∈ bs, b.1.node.kind = "package_clause") :
    ∃ i ∈ is, i.node.kind = "package_clause" := by
  have hitem : ∀ {i i' : Item}, SameDecl text text' i i' → i.node.kind = "package_clause" →
      i'.node.kind = "package_clause" := by
    intro i i' hsame hkind
    cases hsame with
    | whole _ _ hsame => exact hsame.kind.trans hkind
    | imports himport _ _ _ => exact absurd (himport.symm.trans hkind) (by decide)
    | signature _ _ _ hsame => exact hsame.kind.trans hkind
    | function _ hsame _ _ _ _ => exact hsame.trans hkind
  induction h with
  | nil => simp at hpackage
  | alone hi _ ih =>
    obtain ⟨b, hb, hkind⟩ := hpackage
    rcases List.mem_cons.mp hb with rfl | hb
    · exact ⟨_, List.mem_cons_self, hitem hi hkind⟩
    · obtain ⟨j, hj, hkind⟩ := ih ⟨b, hb, hkind⟩
      exact ⟨j, List.mem_cons_of_mem _ hj, hkind⟩
  | followed hi _ _ _ _ ih =>
    obtain ⟨b, hb, hkind⟩ := hpackage
    rcases List.mem_cons.mp hb with rfl | hb
    · exact ⟨_, List.mem_cons_self, hitem hi hkind⟩
    · obtain ⟨j, hj, hkind⟩ := ih ⟨b, hb, hkind⟩
      exact ⟨j, List.mem_cons_of_mem _ (List.mem_cons_of_mem _ hj), hkind⟩

/-- **The printed text is a fixed point**: what a file is printed as, read again, is printed as it is. -/
theorem Load.render_again {text printed : Text} {root root' : Cst} {f : SourceFile} (s : Settings)
    (h : root.IsProgram text) (hload : SourceFile.ofCst text root = .ok f)
    (hrender : f.render s.indent = .ok printed) (h' : root'.IsProgram printed)
    (herror : root'.hasError = false)
    (halike : Alike text printed (SameDecl text printed)
      (sortedBlocks (Source.ofText text) (topItems root)) (topItems root')) :
    ∃ f', SourceFile.ofCst printed root' = .ok f' ∧ f'.render s.indent = .ok printed := by
  obtain ⟨rfl, hpackage⟩ := ofCst_ok hload
  have hindent := s.isBlank_of_mem_indent
  have hclean := Print.newline_notMem_indent s
  obtain ⟨ls, hls, hreads⟩ := halike.readsAll (x := Reading.decls text printed s.indent) h'
    (Reading.faithful_decls text printed s.indent) rfl (fun i' hi' => Cst.IsProgram.top_mem hi')
    fun b hb i' hi' hsame =>
      hsame.rereads h h' hindent hclean (mem_of_mem_sortedBlocks _ hb) hi'
  -- The printed text is the list of declarations, with one line feed at the end.
  have hstrokes : (SourceFile.build (Source.ofText text) root).strokes =
      (Reading.decls text printed s.indent).strokes
        (sortedBlocks (Source.ofText text) (topItems root)) := strokes_build text root
  have hopens := hreads.opens.1
  rw [← hstrokes] at hopens
  have hprinted : finished (Stroke.lines s.indent
      (SourceFile.build (Source.ofText text) root).strokes) = printed :=
    Except.ok.inj ((SourceFile.render_of_opens hopens s.indent).symm.trans hrender)
  have hlist : (Reading.decls text printed s.indent).listText
      (sortedBlocks (Source.ofText text) (topItems root)) =
        joinLines (Stroke.lines s.indent (SourceFile.build (Source.ofText text) root).strokes) := by
    rw [hstrokes]
    rfl
  have hcount := hreads.count
  have hsub := hls.trans (leaves_topItems_sublist root')
  rw [hlist] at hcount
  have hpart := Part.of_finished hprinted (h'.tokens.ordered.sublist hsub) (fun l hl =>
    ⟨(h'.tokens.bounds l (hsub.subset hl)).1.le, (h'.tokens.bounds l (hsub.subset hl)).2⟩) hcount
  rw [← hlist] at hpart
  have hagain := (hreads.again (Reading.faithful_decls text printed s.indent) hpart).2
  have horder := h'.inOrder_eq (fun i' hi' => Cst.IsProgram.top_mem hi') (leaves_topItems_sublist root')
  have hsame : (SourceFile.build (Source.ofText printed) root').strokes =
      (SourceFile.build (Source.ofText text) root).strokes := by
    rw [strokes_build printed root', sortedBlocks, horder, hstrokes]
    exact hagain
  obtain ⟨i', hi', hkind'⟩ : ∃ i' ∈ topItems root', i'.node.kind = "package_clause" := by
    refine halike.exists_package ?_
    rw [decls_build, List.any_map, List.any_eq_true] at hpackage
    obtain ⟨b, hb, hkind⟩ := hpackage
    rw [Function.comp_apply, isPackageClause_blockNode] at hkind
    exact ⟨b, hb, beq_iff_eq.mp hkind⟩
  obtain ⟨c, hc, rfl⟩ := List.mem_map.mp hi'
  refine ⟨_, ofCst_eq_ok herror ⟨c, hc, hkind'⟩, ?_⟩
  rw [SourceFile.render_congr hsame, hrender]

/-! ## A file that is laid out anew -/

namespace Sample

/-- A function on one line, with a comment that ends with a space. -/
def crampedText : Text := utf8 "package p\nfunc f() \x7ba; b // c \n\x7d\n"

/-- The function as it is printed. -/
def spacedText : Text := utf8 "package p\nfunc f() \x7b\n\ta\n\tb // c\n\x7d\n"

/-- A statement of one letter. -/
def letter (start : Nat) : Cst :=
  branch "expression_statement" start (start + 1) none [named "identifier" start (start + 1) none]

/-- The body of the function: two statements with a token between them, and a comment. -/
def letters (a : Nat) (between : Cst) (b comment stop brace : Nat) : Cst :=
  branch "block" 19 (brace + 1) (some "body")
    [token "\x7b" 19 20, branch "statement_list" a (b + 1) none [letter a, between, letter b],
      named "comment" comment stop none, token "\x7d" brace (brace + 1)]

/-- The function with a given body. -/
def lettersFunction (body : Cst) : Cst :=
  branch "function_declaration" 10 body.stop none
    [token "func" 10 14, named "identifier" 15 16 (some "name"),
      branch "parameter_list" 16 18 (some "parameters") [token "(" 16 17, token ")" 17 18], body]

/-- The file with a given body. -/
def lettersTree (body : Cst) : Cst :=
  branch "source_file" 0 body.stop none [packageClause, token "\n" 9 10, lettersFunction body]

/-- The tree of `crampedText`. -/
def crampedTree : Cst := lettersTree (letters 20 (token ";" 21 22) 23 25 30 31)

/-- The tree of `spacedText`. -/
def spacedTree : Cst := lettersTree (letters 22 (token "\n" 23 24) 25 27 31 32)

end Sample

namespace Sample

theorem isProgram_lettersTree {text : Text} {a b comment stop brace : Nat} {between : Cst}
    (tokens : Leaf.Laid (Source.ofText text)
      ((lettersTree (letters a between b comment stop brace)).leaves ""))
    (items : ∀ i ∈ Load.allItems (lettersTree (letters a between b comment stop brace)), i.Formed text)
    (hpackage : Item.IsPackageClause text ⟨"source_file", packageClause⟩)
    (hbody : Bracketed text
      ((lettersFunction (letters a between b comment stop brace)).leaves "source_file")
      (Load.headLeaves (lettersFunction (letters a between b comment stop brace))) "\x7b" "\x7d"
      (Load.itemsOf "statement_list" (letters a between b comment stop brace))) :
    (lettersTree (letters a between b comment stop brace)).IsProgram text := by
  have hcases : ∀ i ∈ Load.topItems (lettersTree (letters a between b comment stop brace)),
      i = ⟨"source_file", packageClause⟩ ∨
        i = ⟨"source_file", lettersFunction (letters a between b comment stop brace)⟩ := by
    intro i hi
    change i ∈ [⟨"source_file", _⟩, ⟨"source_file", _⟩] at hi
    simpa using hi
  have hfunction : (lettersFunction (letters a between b comment stop brace)).kind =
      "function_declaration" := rfl
  refine ⟨tokens, items, fun i hi hkind => ?_, fun i hi hkind => ?_, fun i hi hkind => ?_⟩
  · rcases hcases i hi with rfl | rfl
    · exact hpackage
    · exact absurd (hfunction.symm.trans hkind) (by decide)
  · rcases hcases i hi with rfl | rfl
    · exact absurd hkind (by decide)
    · exact absurd (hfunction.symm.trans hkind) (by decide)
  · rcases hcases i hi with rfl | rfl
    · exact absurd hkind (by decide)
    · refine ⟨List.cons_ne_nil _ _, fun c hc => ?_⟩
      obtain rfl := Option.some.inj hc
      exact hbody

theorem isPackageClause {text : Text} (hkeyword : (text.take 7).drop 0 = utf8 "package") :
    Item.IsPackageClause text ⟨"source_file", packageClause⟩ :=
  ⟨⟨"package", "package_clause", 0, 7⟩, named "package_identifier" 8 9 none, rfl,
    ⟨by rw [Cst.text, Leaf.slice_ofText]; exact (List.append_nil _).symm, by decide, by decide⟩, rfl,
    hkeyword⟩

theorem isProgram_cramped : crampedTree.IsProgram crampedText :=
  isProgram_lettersTree (by decide +kernel) (by decide +kernel) (isPackageClause (by decide +kernel))
    ⟨⟨"\x7b", "block", 19, 20⟩, ⟨"\x7d", "block", 31, 32⟩,
      [⟨"identifier", "expression_statement", 20, 21⟩, ⟨";", "statement_list", 21, 22⟩,
        ⟨"identifier", "expression_statement", 23, 24⟩, ⟨"comment", "block", 25, 30⟩],
      by decide +kernel⟩

theorem isProgram_spaced : spacedTree.IsProgram spacedText :=
  isProgram_lettersTree (by decide +kernel) (by decide +kernel) (isPackageClause (by decide +kernel))
    ⟨⟨"\x7b", "block", 19, 20⟩, ⟨"\x7d", "block", 32, 33⟩,
      [⟨"identifier", "expression_statement", 22, 23⟩, ⟨"identifier", "expression_statement", 25, 26⟩,
        ⟨"comment", "block", 27, 31⟩], by decide +kernel⟩

theorem sortedBlocks_cramped :
    Load.sortedBlocks (Source.ofText crampedText) (Load.topItems crampedTree) =
      [(⟨"source_file", packageClause⟩, none),
        (⟨"source_file", lettersFunction (letters 20 (token ";" 21 22) 23 25 30 31)⟩, none)] := by
  rw [Load.sortedBlocks, Load.inOrder_eq_self (by decide)]
  rfl

theorem sortedBlocks_letters :
    Load.sortedBlocks (Source.ofText crampedText)
        (Load.itemsOf "statement_list" (letters 20 (token ";" 21 22) 23 25 30 31)) =
      [(⟨"statement_list", letter 20⟩, none),
        (⟨"statement_list", letter 23⟩, some ⟨"block", named "comment" 25 30 none⟩)] := by
  rw [Load.sortedBlocks, Load.inOrder_eq_self (by decide)]
  rfl

theorem render_cramped :
    (SourceFile.build (Source.ofText crampedText) crampedTree).render (Settings.indent {}) =
      .ok spacedText := by
  have hfunction := Load.print_function crampedText (b := letters 20 (token ";" 21 22) 23 25 30 31)
    (i := ⟨"source_file", lettersFunction (letters 20 (token ";" 21 22) 23 25 30 31)⟩) (by decide) rfl
  rw [sortedBlocks_letters] at hfunction
  have hstrokes : (SourceFile.build (Source.ofText crampedText) crampedTree).strokes =
      [.line 0 (utf8 "package p"), .line 0 (utf8 "func f()"), .extend (utf8 " \x7b"),
        .line 1 (utf8 "a"), .line 1 (utf8 "b"), .extend (utf8 " // c"), .line 0 (utf8 "\x7d")] := by
    have hblock : Print.decl (Load.blockNode (Source.ofText crampedText)
        (Load.decl (Source.ofText crampedText)) (⟨"source_file", lettersFunction _⟩, none)) = _ := hfunction
    rw [Load.strokes_build, sortedBlocks_cramped, List.map_cons, List.map_singleton, Print.spread,
      Print.spread, Print.spread, hblock]
    decide +kernel
  rw [SourceFile.render, hstrokes]
  rfl

theorem alike : Load.Alike crampedText spacedText (Load.SameDecl crampedText spacedText)
    (Load.sortedBlocks (Source.ofText crampedText) (Load.topItems crampedTree))
    (Load.topItems spacedTree) := by
  rw [sortedBlocks_cramped]
  refine .alone (.whole (by decide) (by decide) ⟨rfl, by decide +kernel⟩) (.alone ?_ .nil)
  refine .function (by decide) rfl rfl rfl (by decide +kernel) ?_
  rw [sortedBlocks_letters]
  exact .alone ⟨rfl, by decide +kernel⟩
    (.followed ⟨rfl, by decide +kernel⟩ rfl (by decide +kernel) (by decide +kernel) .nil)

end Sample

theorem Load.render_again_cramped :
    (∃ f, SourceFile.ofCst Sample.crampedText Sample.crampedTree = .ok f ∧
      f.render (Settings.indent {}) = .ok Sample.spacedText) ∧
    ∃ f', SourceFile.ofCst Sample.spacedText Sample.spacedTree = .ok f' ∧
      f'.render (Settings.indent {}) = .ok Sample.spacedText := by
  have hload : SourceFile.ofCst Sample.crampedText Sample.crampedTree = .ok _ :=
    ofCst_eq_ok (by decide) ⟨Sample.packageClause, List.mem_cons_self, rfl⟩
  exact ⟨⟨_, hload, Sample.render_cramped⟩, render_again {} Sample.isProgram_cramped hload
    Sample.render_cramped Sample.isProgram_spaced (by decide) Sample.alike⟩

/-! ## Trees that are no programs -/

theorem Load.strokes_build_of_plain {text : Text} {root : Cst}
    (horder : (topItems root).Pairwise fun a b => a.node.start ≤ b.node.start)
    (hplain : ∀ i ∈ topItems root, i.node.kind ≠ "comment") :
    (SourceFile.build (Source.ofText text) root).strokes = Print.spread Print.decl none
      ((topItems root).map (itemNode (Source.ofText text) (decl (Source.ofText text)))) := by
  rw [strokes_build, sortedBlocks_eq_map _ horder hplain, List.map_map]
  rfl

/-- The tree `root` of `text` is printed as `printed`, and the tree `root'` of that, with the same tokens, is
printed as something else. -/
structure Load.Unsettled (root root' : Cst) (text printed : Text) : Prop where
  laid : Leaf.Laid (Source.ofText text) (root.leaves "") ∧
    Leaf.Laid (Source.ofText printed) (root'.leaves "")
  formed : (∀ i ∈ allItems root, i.Formed text) ∧ ∀ i ∈ allItems root', i.Formed printed
  tokens : List.Forall₂ (Leaf.Same text printed) (root.leaves "") (root'.leaves "")
  once : ∃ f, SourceFile.ofCst text root = .ok f ∧ f.render (Settings.indent {}) = .ok printed
  twice : ∃ f again, SourceFile.ofCst printed root' = .ok f ∧
    f.render (Settings.indent {}) = .ok again ∧ again ≠ printed

namespace Sample

/-- A function of which there is only the body. -/
def bareFunction : Cst :=
  branch "function_declaration" 11 13 none
    [branch "block" 11 13 (some "body") [token "\x7b" 11 12, token "\x7d" 12 13]]

def bareTree : Cst :=
  branch "source_file" 0 13 none [packageClause, token "\n" 9 10, bareFunction]

/-- Braces below an empty row. -/
def bareText : Text := utf8 "package p\n\n\x7b\x7d\n"

def bentText : Text := utf8 "package p\n \x7b\x7d\n"

theorem strokes_bare (text : Text) : (SourceFile.build (Source.ofText text) bareTree).strokes =
    [.line 0 (utf8 "package " ++ (Source.ofText text).slice 8 9)] ++
      (Print.blank (((Load.markOf (Source.ofText text) packageClause).blankBetween
        (Load.markOf (Source.ofText text) bareFunction)).getD false) ++
        [.extend (utf8 " \x7b\x7d")]) := by
  have hfunction := Load.print_function text (i := ⟨"source_file", bareFunction⟩) (by decide) rfl
  rw [Load.sortedBlocks_eq_map _ (by decide) (by decide)] at hfunction
  have hitems : Load.topItems bareTree =
    [⟨"source_file", packageClause⟩, ⟨"source_file", bareFunction⟩] := rfl
  rw [Load.strokes_build_of_plain (by decide) (by decide), hitems, List.map_cons, List.map_singleton,
    Print.spread, Print.spread, Print.spread, hfunction, List.append_nil]
  rfl

/-- A package clause that goes on up to the keyword of the import declaration below it. -/
def greedyClause (keyword : Nat) : Cst :=
  branch "package_clause" 0 (keyword + 6) none
    [token "package" 0 7, named "package_identifier" 8 9 none, token "import" keyword (keyword + 6)]

/-- An import declaration without its keyword. -/
def strippedImport (path : Nat) : Cst :=
  branch "import_declaration" 18 (path + 5) none
    [branch "import_spec_list" 18 (path + 5) none
      [token "(" 18 19,
        branch "import_spec" path (path + 3) none
          [named "raw_string_literal" path (path + 3) (some "path")],
        token ")" (path + 4) (path + 5)]]

def greedyTree (keyword path : Nat) : Cst :=
  branch "source_file" 0 (path + 5) none [greedyClause keyword, strippedImport path]

/-- The keyword on the row of the package clause, the parenthesis below an empty row. -/
def greedyText : Text := utf8 "package p import\n\n(\n\x60x\x60\n)\n"

def partedText : Text := utf8 "package p\n\nimport (\n\t\x60x\x60\n)\n"

theorem strokes_greedy (text : Text) (keyword path : Nat) :
    (SourceFile.build (Source.ofText text) (greedyTree keyword path)).strokes =
      [.line 0 (utf8 "package " ++ (Source.ofText text).slice 8 9)] ++
        (Print.blank (((Load.markOf (Source.ofText text) (greedyClause keyword)).blankBetween
          (Load.markOf (Source.ofText text) (strippedImport path))).getD false) ++
          [.line 0 (utf8 "import ("), .line 1 ((Source.ofText text).slice path (path + 3)),
            .line 0 (utf8 ")")]) := by
  have himports := Load.print_imports text (i := ⟨"source_file", strippedImport path⟩) rfl rfl
  have hentries : Load.itemsOf "import_spec_list" (strippedImport path) =
    [⟨"import_spec_list", branch "import_spec" path (path + 3) none
      [named "raw_string_literal" path (path + 3) (some "path")]⟩] := rfl
  rw [hentries, Load.sortedBlocks_singleton] at himports
  have hitems : Load.topItems (greedyTree keyword path) =
    [⟨"source_file", greedyClause keyword⟩, ⟨"source_file", strippedImport path⟩] := rfl
  rw [Load.strokes_build_of_plain (hitems ▸ List.pairwise_pair.mpr (Nat.zero_le _))
    (by rw [hitems]; simp [greedyClause, strippedImport, branch, Cst.kind, Cst.info]), hitems,
    List.map_cons, List.map_singleton, Print.spread, Print.spread, Print.spread, himports,
    List.append_nil]
  rfl

/-- A function whose closing brace stands behind it. -/
def openFunction (stmt : Nat) : Cst :=
  lettersFunction (branch "block" 19 (stmt + 1) (some "body")
    [token "\x7b" 19 20, branch "statement_list" stmt (stmt + 1) none [letter stmt]])

def openTree (stmt : Nat) : Cst :=
  branch "source_file" 0 (stmt + 5) none
    [packageClause, token "\n" 9 10, openFunction stmt, token "\x7d" (stmt + 2) (stmt + 3),
      letter (stmt + 4)]

/-- The closing brace on the row of the statement. -/
def openText : Text := utf8 "package p\nfunc f() \x7b\na \x7d\nb\n"

def closedText : Text := utf8 "package p\nfunc f() \x7b\n\ta\n\x7d\nb\n"

theorem strokes_open (text : Text) {stmt : Nat} (hstmt : 6 ≤ stmt) :
    (SourceFile.build (Source.ofText text) (openTree stmt)).strokes =
      [.line 0 (utf8 "package " ++ (Source.ofText text).slice 8 9)] ++
        (Print.blank (((Load.markOf (Source.ofText text) packageClause).blankBetween
          (Load.markOf (Source.ofText text) (openFunction stmt))).getD false) ++
        (Print.fragment 0 (Leaf.fragment text (Load.headLeaves (openFunction stmt))) ++
          Print.braced false
            (Print.fragment 1 (Leaf.fragment text ((letter stmt).leaves "statement_list")))) ++
        (Print.blank (((Load.markOf (Source.ofText text) (openFunction stmt)).blankBetween
          (Load.markOf (Source.ofText text) (letter (stmt + 4)))).getD false) ++
          Print.fragment 0 (Leaf.fragment text ((letter (stmt + 4)).leaves "source_file")))) := by
  have hfunction := Load.print_function text (i := ⟨"source_file", openFunction stmt⟩) (by rfl) rfl
  have hstmts : Load.itemsOf "statement_list" (branch "block" 19 (stmt + 1) (some "body")
      [token "\x7b" 19 20, branch "statement_list" stmt (stmt + 1) none [letter stmt]]) =
    [⟨"statement_list", letter stmt⟩] := rfl
  have hletter : Print.stmt 1 (Load.blockNode (Source.ofText text) (Load.stmt (Source.ofText text))
      (⟨"statement_list", letter stmt⟩, none)) = _ := Load.print_stmt text ⟨_, letter stmt⟩ 1
  rw [hstmts, Load.sortedBlocks_singleton, List.map_singleton, Print.spread, Print.spread, hletter,
    List.append_nil] at hfunction
  have hkind : (letter (stmt + 4)).kind = "expression_statement" := rfl
  have hlast := Load.print_decl text (i := ⟨"source_file", letter (stmt + 4)⟩) (by rw [hkind]; decide)
    (by rw [hkind]; decide) rfl
  have hitems : Load.topItems (openTree stmt) = [⟨"source_file", packageClause⟩,
    ⟨"source_file", openFunction stmt⟩, ⟨"source_file", letter (stmt + 4)⟩] := rfl
  have horder : (Load.topItems (openTree stmt)).Pairwise fun a b => a.node.start ≤ b.node.start := by
    have hstart : ∀ n, (letter n).start = n := fun _ => rfl
    have hfirst : (openFunction stmt).start = 10 := rfl
    simp only [hitems, List.pairwise_cons, List.mem_cons, List.not_mem_nil, or_false, forall_eq_or_imp,
      forall_eq, hstart, hfirst, false_imp_iff, implies_true, List.Pairwise.nil, and_true]
    exact ⟨⟨Nat.zero_le _, Nat.zero_le _⟩, by omega⟩
  have hplain : ∀ i ∈ Load.topItems (openTree stmt), i.node.kind ≠ "comment" := by
    simp [hitems, packageClause, openFunction, lettersFunction, letter, branch, Cst.kind, Cst.info]
  rw [Load.strokes_build_of_plain horder hplain, hitems, List.map_cons, List.map_cons,
    List.map_singleton, Print.spread, Print.spread, Print.spread, Print.spread, hfunction, hlast,
    List.append_nil]
  rfl

theorem unsettled_bare : Load.Unsettled bareTree bareTree bareText bentText where
  laid := by decide +kernel
  formed := by decide +kernel
  tokens := by decide +kernel
  once := ⟨_, Load.ofCst_eq_ok (by decide) ⟨packageClause, List.mem_cons_self, rfl⟩, by
    rw [SourceFile.render, strokes_bare]
    rfl⟩
  twice := ⟨_, utf8 "package p \x7b\x7d\n",
    Load.ofCst_eq_ok (by decide) ⟨packageClause, List.mem_cons_self, rfl⟩, by
      rw [SourceFile.render, strokes_bare]
      rfl, by decide +kernel⟩

theorem unsettled_greedy :
    Load.Unsettled (greedyTree 10 20) (greedyTree 11 21) greedyText partedText where
  laid := by decide +kernel
  formed := by decide +kernel
  tokens := by decide +kernel
  once := ⟨_, Load.ofCst_eq_ok (by decide) ⟨greedyClause 10, List.mem_cons_self, rfl⟩, by
    rw [SourceFile.render, strokes_greedy]
    rfl⟩
  twice := ⟨_, utf8 "package p\nimport (\n\t\x60x\x60\n)\n",
    Load.ofCst_eq_ok (by decide) ⟨greedyClause 11, List.mem_cons_self, rfl⟩, by
      rw [SourceFile.render, strokes_greedy]
      rfl, by decide +kernel⟩

theorem unsettled_open : Load.Unsettled (openTree 21) (openTree 22) openText closedText where
  laid := by decide +kernel
  formed := by decide +kernel
  tokens := by decide +kernel
  once := ⟨_, Load.ofCst_eq_ok (by decide) ⟨packageClause, List.mem_cons_self, rfl⟩, by
    rw [SourceFile.render, strokes_open _ (by decide)]
    rfl⟩
  twice := ⟨_, utf8 "package p\nfunc f() \x7b\n\ta\n\x7d\n\nb\n",
    Load.ofCst_eq_ok (by decide) ⟨packageClause, List.mem_cons_self, rfl⟩, by
      rw [SourceFile.render, strokes_open _ (by decide)]
      rfl, by decide +kernel⟩

end Sample

/-- Tokens in order, in items that begin and end with them, are not enough: the printed text is no fixed
point when a function has no token in front of its body, when a package clause goes on to the next
declaration, or when the brace behind a body is not part of its function. -/
theorem Load.render_moves_stray_tokens :
    Unsettled Sample.bareTree Sample.bareTree Sample.bareText Sample.bentText ∧
    Unsettled (Sample.greedyTree 10 20) (Sample.greedyTree 11 21) Sample.greedyText Sample.partedText ∧
    Unsettled (Sample.openTree 21) (Sample.openTree 22) Sample.openText Sample.closedText :=
  ⟨Sample.unsettled_bare, Sample.unsettled_greedy, Sample.unsettled_open⟩

end Stopwatch
