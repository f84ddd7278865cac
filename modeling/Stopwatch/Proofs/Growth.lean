import Mathlib
import Stopwatch.Proofs.Transformation

/-!
# Trees that only grow

`Node.Grows old new`: the tree `new` is `old` with statements put in front of the bodies of some of its
functions, at any depth. Marks, heads and everything else are the same, so every statement that a function
had still stands at the end of its body. `SourceFile.Grows` adds what may happen at the top level of a file:
new declarations, and new entries in import declarations that do not import `"C"`.

Results:
* `Node.Grows.trans`, `SourceFile.Grows.trans`: growth upon growth is growth.
* `Node.Grows.functions`: the functions of the old tree, in the order of the walk, are found again among
  those of the new one, each with its old statements last.
* `Node.Grows.eq_of_functions_eq_nil`: a tree without functions cannot grow.
* `Node.grows_untimed`: a tree grows from what it is without its pairs.
-/

namespace Stopwatch

mutual

/-- A tree whose functions may have got statements in front of those they had. -/
inductive Node.Grows : Node → Node → Prop
  | refl (n : Node) : n.Grows n
  | sourceFile (m : Mark) {ds es : List Node} (ids : List Text) (decls : GrowsAll ds es) :
      Node.Grows (.sourceFile m ds ids) (.sourceFile m es ids)
  | importDecl (m : Mark) {ss ts : List Node} (grouped : Bool) (specs : GrowsAll ss ts) :
      Node.Grows (.importDecl m ss grouped) (.importDecl m ts grouped)
  | funcDecl (m : Mark) (h : FuncHead) (bm : Mark) (added : List Node) {ss rest : List Node}
      (stmts : GrowsAll ss rest) :
      Node.Grows (.funcDecl m h (some ⟨bm, ss⟩)) (.funcDecl m h (some ⟨bm, added ++ rest⟩))
  | block (bm : Mark) {ss ts : List Node} (stmts : GrowsAll ss ts) :
      Node.Grows (.block ⟨bm, ss⟩) (.block ⟨bm, ts⟩)
  | selectorExpr (m : Mark) {x y : Node} (sel : Text) (inner : x.Grows y) :
      Node.Grows (.selectorExpr m x sel) (.selectorExpr m y sel)
  | callExpr (m : Mark) {f g : Node} {ss ts : List Node} (func : f.Grows g)
      (args : GrowsAll ss ts) : Node.Grows (.callExpr m f ss) (.callExpr m g ts)
  | funcLit (m bm : Mark) {ss ts : List Node} (stmts : GrowsAll ss ts) :
      Node.Grows (.funcLit m ⟨bm, ss⟩) (.funcLit m ⟨bm, ts⟩)
  | assignStmt (m : Mark) {ls ms rs ts : List Node} (tok : Text) (lhs : GrowsAll ls ms)
      (rhs : GrowsAll rs ts) : Node.Grows (.assignStmt m ls tok rs) (.assignStmt m ms tok ts)
  | deferStmt (m : Mark) {c d : Node} (call : c.Grows d) :
      Node.Grows (.deferStmt m c) (.deferStmt m d)
  | exprStmt (m : Mark) {x y : Node} (inner : x.Grows y) :
      Node.Grows (.exprStmt m x) (.exprStmt m y)

/-- `Node.Grows` along a list. -/
inductive GrowsAll : List Node → List Node → Prop
  | nil : GrowsAll [] []
  | cons {n n' : Node} {ns ns' : List Node} (head : n.Grows n') (tail : GrowsAll ns ns') :
      GrowsAll (n :: ns) (n' :: ns')

end

/-! ## Lists of trees -/

theorem growsAll_iff {ns ns' : List Node} :
    GrowsAll ns ns' ↔ List.Forall₂ Node.Grows ns ns' := by
  constructor
  · intro h
    induction ns generalizing ns' with
    | nil => cases h; exact .nil
    | cons n ns ih =>
      cases h with
      | cons head tail => exact .cons head (ih tail)
  · intro h
    induction h with
    | nil => exact .nil
    | cons head _ ih => exact .cons head ih

namespace GrowsAll

theorem refl (ns : List Node) : GrowsAll ns ns := by
  induction ns with
  | nil => exact .nil
  | cons n ns ih => exact .cons (.refl n) ih

theorem append {as as' bs bs' : List Node} (h : GrowsAll as as') (h' : GrowsAll bs bs') :
    GrowsAll (as ++ bs) (as' ++ bs') :=
  growsAll_iff.mpr (List.rel_append (growsAll_iff.mp h) (growsAll_iff.mp h'))

/-- What grows from two lists in a row are two lists in a row. -/
theorem split {as bs ns : List Node} (h : GrowsAll (as ++ bs) ns) :
    ∃ as' bs', ns = as' ++ bs' ∧ GrowsAll as as' ∧ GrowsAll bs bs' := by
  induction as generalizing ns with
  | nil => exact ⟨[], ns, rfl, .nil, h⟩
  | cons a as ih =>
    cases h with
    | cons head tail =>
      obtain ⟨as', bs', rfl, ha, hb⟩ := ih tail
      exact ⟨_ :: as', bs', rfl, .cons head ha, hb⟩

end GrowsAll

mutual

theorem Node.Grows.trans : ∀ {a b c : Node}, a.Grows b → b.Grows c → a.Grows c
  | _, _, _, .refl _, h' => h'
  | _, _, _, h, .refl _ => h
  | _, _, _, .sourceFile m ids h, .sourceFile _ _ h' => .sourceFile m ids (h.trans h')
  | _, _, _, .importDecl m grouped h, .importDecl _ _ h' => .importDecl m grouped (h.trans h')
  | _, _, _, .funcDecl m head bm added h, .funcDecl _ _ _ more h' => by
    -- What was added first has grown as well, and stands behind what was added now.
    obtain ⟨added', rest, rfl, -, hrest⟩ := h'.split
    rw [← List.append_assoc]
    exact .funcDecl m head bm (more ++ added') (h.trans hrest)
  | _, _, _, .block bm h, .block _ h' => .block bm (h.trans h')
  | _, _, _, .selectorExpr m sel h, .selectorExpr _ _ h' => .selectorExpr m sel (h.trans h')
  | _, _, _, .callExpr m f h, .callExpr _ f' h' => .callExpr m (f.trans f') (h.trans h')
  | _, _, _, .funcLit m bm h, .funcLit _ _ h' => .funcLit m bm (h.trans h')
  | _, _, _, .assignStmt m tok l h, .assignStmt _ _ l' h' =>
    .assignStmt m tok (l.trans l') (h.trans h')
  | _, _, _, .deferStmt m h, .deferStmt _ h' => .deferStmt m (h.trans h')
  | _, _, _, .exprStmt m h, .exprStmt _ h' => .exprStmt m (h.trans h')

theorem GrowsAll.trans : ∀ {as bs cs : List Node}, GrowsAll as bs → GrowsAll bs cs → GrowsAll as cs
  | _, _, _, .nil, .nil => .nil
  | _, _, _, .cons h hs, .cons h' hs' => .cons (h.trans h') (hs.trans hs')

end

/-! ## The functions of a tree that grows -/

/-- A function with statements put in front of those it had; one without a body stays without. -/
inductive Function.Grows : Function → Function → Prop
  | bodyless (m : Mark) (h : FuncHead) : Function.Grows ⟨m, h, none⟩ ⟨m, h, none⟩
  | body (m : Mark) (h : FuncHead) (bm : Mark) (added : List Node) {ss rest : List Node}
      (stmts : GrowsAll ss rest) :
      Function.Grows ⟨m, h, some ⟨bm, ss⟩⟩ ⟨m, h, some ⟨bm, added ++ rest⟩⟩

theorem Function.Grows.refl : ∀ f : Function, f.Grows f
  | ⟨m, h, none⟩ => .bodyless m h
  | ⟨m, h, some ⟨bm, ss⟩⟩ => .body m h bm [] (.refl ss)

instance : Std.Refl Function.Grows := ⟨Function.Grows.refl⟩

theorem sublistForall₂_append {α β : Type} {R : α → β → Prop} {as bs : List α} {as' bs' : List β}
    (h : List.SublistForall₂ R as as') (h' : List.SublistForall₂ R bs bs') :
    List.SublistForall₂ R (as ++ bs) (as' ++ bs') := by
  obtain ⟨l, hl, hsub⟩ := List.sublistForall₂_iff.mp h
  obtain ⟨l', hl', hsub'⟩ := List.sublistForall₂_iff.mp h'
  exact List.sublistForall₂_iff.mpr ⟨l ++ l', List.rel_append hl hl', hsub.append hsub'⟩

mutual

/-- **The functions of the old tree are found again**, in order and with their statements last. -/
theorem Node.Grows.functions : ∀ {a b : Node}, a.Grows b →
    List.SublistForall₂ Function.Grows a.functions b.functions
  | _, _, .refl n => (List.Sublist.refl n.functions).sublistForall₂
  | _, _, .sourceFile _ _ h => by simpa using h.functions
  | _, _, .importDecl _ _ h => by simpa using h.functions
  | _, _, .funcDecl m head bm added h => by
    rw [functions_funcDecl_some, functions_funcDecl_some, List.flatMap_append]
    exact .cons (.body m head bm added h) (sublistForall₂_append .nil h.functions)
  | _, _, .block _ h => by simpa using h.functions
  | _, _, .selectorExpr _ _ h => by simpa using h.functions
  | _, _, .callExpr _ f h => by simpa using sublistForall₂_append f.functions h.functions
  | _, _, .funcLit _ _ h => by simpa using h.functions
  | _, _, .assignStmt _ _ l h => by simpa using sublistForall₂_append l.functions h.functions
  | _, _, .deferStmt _ h => by simpa using h.functions
  | _, _, .exprStmt _ h => by simpa using h.functions

theorem GrowsAll.functions : ∀ {as bs : List Node}, GrowsAll as bs →
    List.SublistForall₂ Function.Grows (as.flatMap Node.functions) (bs.flatMap Node.functions)
  | _, _, .nil => .nil
  | _, _, .cons h hs => sublistForall₂_append h.functions hs.functions

end

mutual

/-- A tree without functions cannot grow. -/
theorem Node.Grows.eq_of_functions_eq_nil : ∀ {a b : Node}, a.Grows b → a.functions = [] → b = a
  | _, _, .refl _, _ => rfl
  | _, _, .sourceFile _ _ h, hnil => by rw [h.eq_of_functions_eq_nil (by simpa using hnil)]
  | _, _, .importDecl _ _ h, hnil => by rw [h.eq_of_functions_eq_nil (by simpa using hnil)]
  | _, _, .funcDecl .., hnil => absurd hnil (by simp)
  | _, _, .block _ h, hnil => by rw [h.eq_of_functions_eq_nil (by simpa using hnil)]
  | _, _, .selectorExpr _ _ h, hnil => by rw [h.eq_of_functions_eq_nil (by simpa using hnil)]
  | _, _, .callExpr _ f h, hnil => by
    rw [functions_callExpr, List.append_eq_nil_iff] at hnil
    rw [f.eq_of_functions_eq_nil hnil.1, h.eq_of_functions_eq_nil hnil.2]
  | _, _, .funcLit _ _ h, hnil => by rw [h.eq_of_functions_eq_nil (by simpa using hnil)]
  | _, _, .assignStmt _ _ l h, hnil => by
    rw [functions_assignStmt, List.append_eq_nil_iff] at hnil
    rw [l.eq_of_functions_eq_nil hnil.1, h.eq_of_functions_eq_nil hnil.2]
  | _, _, .deferStmt _ h, hnil => by rw [h.eq_of_functions_eq_nil (by simpa using hnil)]
  | _, _, .exprStmt _ h, hnil => by rw [h.eq_of_functions_eq_nil (by simpa using hnil)]

theorem GrowsAll.eq_of_functions_eq_nil : ∀ {as bs : List Node}, GrowsAll as bs →
    as.flatMap Node.functions = [] → bs = as
  | _, _, .nil, _ => rfl
  | _, _, .cons h hs, hnil => by
    rw [List.flatMap_cons, List.append_eq_nil_iff] at hnil
    rw [h.eq_of_functions_eq_nil hnil.1, hs.eq_of_functions_eq_nil hnil.2]

end

/-! ## Pairs -/

mutual

/-- **A tree grows from what it is without its pairs.** -/
theorem Node.grows_untimed (skip : Text) : ∀ n : Node, (n.untimed skip).Grows n
  | .sourceFile m ds ids => by
    rw [Node.untimed, Node.mapBodies, mapBodiesAll_untimed]
    exact .sourceFile m ids (growsAll_untimedAll skip ds)
  | .importDecl m ss grouped => by
    rw [untimed_importDecl]
    exact .importDecl m grouped (growsAll_untimedAll skip ss)
  | .funcDecl m h none => .refl _
  | .funcDecl m h (some ⟨bm, ss⟩) => by
    rw [Node.untimed, Node.mapBodies, mapBodiesAll_untimed]
    have hss := growsAll_untimedAll skip ss
    split
    · exact .funcDecl m h bm [] hss
    · -- The two statements that were dropped are what was added.
      generalize untimedAll skip ss = kept at hss ⊢
      rw [← List.take_append_drop 2 kept] at hss
      obtain ⟨added, rest, rfl, -, hrest⟩ := hss.split
      exact .funcDecl m h bm added hrest
  | .block ⟨bm, ss⟩ => by
    rw [Node.untimed, Node.mapBodies, mapBodiesAll_untimed]
    exact .block bm (growsAll_untimedAll skip ss)
  | .selectorExpr m x sel => .selectorExpr m sel (Node.grows_untimed skip x)
  | .callExpr m f as => by
    rw [Node.untimed, Node.mapBodies, mapBodiesAll_untimed]
    exact .callExpr m (Node.grows_untimed skip f) (growsAll_untimedAll skip as)
  | .funcLit m ⟨bm, ss⟩ => by
    rw [Node.untimed, Node.mapBodies, mapBodiesAll_untimed]
    exact .funcLit m bm (growsAll_untimedAll skip ss)
  | .assignStmt m l tok r => by
    rw [Node.untimed, Node.mapBodies, mapBodiesAll_untimed, mapBodiesAll_untimed]
    exact .assignStmt m tok (growsAll_untimedAll skip l) (growsAll_untimedAll skip r)
  | .deferStmt m c => .deferStmt m (Node.grows_untimed skip c)
  | .exprStmt m x => .exprStmt m (Node.grows_untimed skip x)
  | .packageClause .. => .refl _
  | .importSpec .. => .refl _
  | .rawStmt .. => .refl _
  | .rawDecl .. => .refl _
  | .comment .. => .refl _
  | .ident .. => .refl _
  | .basicLit .. => .refl _
termination_by structural n => n

theorem growsAll_untimedAll (skip : Text) : ∀ ns : List Node, GrowsAll (untimedAll skip ns) ns
  | [] => .nil
  | n :: ns => .cons (Node.grows_untimed skip n) (growsAll_untimedAll skip ns)
termination_by structural ns => ns

end

/-! ## The position table -/

/-- The source rows that a walk of a tree comes across. -/
def Event.span? : Event → Option Span
  | .enter n => n.mark.span
  | .leave _ => none

/-- The source rows recorded in a tree, in the order of the walk. -/
def Node.spans (n : Node) : List Span := (n.walk fun _ => true).filterMap Event.span?

theorem Node.spans_eq (n : Node) :
    n.spans = n.mark.span.toList ++ n.children.flatMap Node.spans := by
  have hinner : (n.children.flatMap (Node.walk fun _ => true)).filterMap Event.span? =
      n.children.flatMap Node.spans := by
    rw [List.filterMap_flatMap]
    rfl
  have henter : (Event.enter n).span? = n.mark.span := rfl
  have hleave : (Event.leave n).span? = none := rfl
  rw [Node.spans, Node.walk_eq, Event.around, if_pos rfl]
  cases h : n.mark.span with
  | none => simp [henter, h, hleave, hinner]
  | some f => simp [henter, h, hleave, hinner]

theorem spans_funcDecl (m : Mark) (h : FuncHead) (b : Body Node) :
    (Node.funcDecl m h (some b)).spans =
      m.span.toList ++ (b.mark.span.toList ++ b.stmts.flatMap Node.spans) := by
  rw [Node.spans_eq]
  simp [Node.mark, Node.children, Node.spans_eq (.block b)]

/-- Nothing in these trees was read from a source. -/
def Unplaced (ns : List Node) : Prop := ns.flatMap Node.spans = []

theorem Pair.unplaced_build (template name identifier : Text) :
    Unplaced (Pair.build template name identifier).stmts := by
  simp [Unplaced, Pair.stmts, Pair.build, Pair.printCall, Pair.selector, Node.spans_eq, Node.mark,
    Node.children]

mutual

/-- **Timing leaves the recorded rows as they are.** -/
theorem Node.spans_instrument (plan : Plan) : ∀ (n : Node) (p : Progress),
    (n.instrument plan p).1.spans = n.spans
  | .sourceFile m ds ids, p => by
    rw [Node.spans_eq, Node.spans_eq]
    exact congrArg (m.span.toList ++ ·) (spans_instrumentAll plan ds p)
  | .importDecl m ss g, p => by
    rw [Node.spans_eq, Node.spans_eq]
    exact congrArg (m.span.toList ++ ·) (spans_instrumentAll plan ss p)
  | .funcDecl m h none, p => rfl
  | .funcDecl m h (some ⟨bm, ss⟩), p => by
    cases hskip : h.isSkipped plan.skipPrefix with
    | true =>
      have hss := spans_instrumentAll plan ss p
      simp [Node.instrument, hskip, spans_funcDecl, hss]
    | false =>
      have hpair : (plan.time m h p).1.stmts.flatMap Node.spans = [] := Pair.unplaced_build ..
      have hss := spans_instrumentAll plan ss (plan.time m h p).2
      simp [Node.instrument, hskip, spans_funcDecl, hpair, hss]
  | .block ⟨bm, ss⟩, p => by
    rw [Node.spans_eq, Node.spans_eq]
    exact congrArg (bm.span.toList ++ ·) (spans_instrumentAll plan ss p)
  | .selectorExpr m x s, p => by
    have hx := Node.spans_instrument plan x p
    rw [Node.spans_eq, Node.spans_eq]
    simp [Node.instrument, Node.mark, Node.children, hx]
  | .callExpr m f as, p => by
    have hf := Node.spans_instrument plan f p
    have has := spans_instrumentAll plan as (f.instrument plan p).2
    rw [Node.spans_eq, Node.spans_eq]
    simp [Node.instrument, Node.mark, Node.children, hf, has]
  | .funcLit m ⟨bm, ss⟩, p => by
    have hss := spans_instrumentAll plan ss p
    rw [Node.spans_eq, Node.spans_eq]
    simp [Node.instrument, Node.mark, Node.children, Node.spans_eq (.block _), hss]
  | .assignStmt m l t r, p => by
    have hl := spans_instrumentAll plan l p
    have hr := spans_instrumentAll plan r (instrumentAll plan l p).2
    rw [Node.spans_eq, Node.spans_eq]
    simp [Node.instrument, Node.mark, Node.children, hl, hr]
  | .deferStmt m c, p => by
    have hc := Node.spans_instrument plan c p
    rw [Node.spans_eq, Node.spans_eq]
    simp [Node.instrument, Node.mark, Node.children, hc]
  | .exprStmt m x, p => by
    have hx := Node.spans_instrument plan x p
    rw [Node.spans_eq, Node.spans_eq]
    simp [Node.instrument, Node.mark, Node.children, hx]
  | .packageClause .., p => rfl
  | .importSpec .., p => rfl
  | .rawStmt .., p => rfl
  | .rawDecl .., p => rfl
  | .comment .., p => rfl
  | .ident .., p => rfl
  | .basicLit .., p => rfl
termination_by structural n => n

theorem spans_instrumentAll (plan : Plan) : ∀ (ns : List Node) (p : Progress),
    (instrumentAll plan ns p).1.flatMap Node.spans = ns.flatMap Node.spans
  | [], p => rfl
  | n :: ns, p => by
    have hn := Node.spans_instrument plan n p
    have hns := spans_instrumentAll plan ns (n.instrument plan p).2
    simp [instrumentAll, hn, hns]
termination_by structural ns => ns

end

/-! ## Files -/

instance : Std.Refl Node.Grows := ⟨Node.Grows.refl⟩

instance : IsTrans Node Node.Grows := ⟨fun _ _ _ => Node.Grows.trans⟩

open Imports in
/-- A declaration at the top level of a file. One of imports may also get new entries, unless it imports
`"C"`. -/
inductive Node.DeclGrows : Node → Node → Prop
  | node {d e : Node} (h : d.Grows e) : Node.DeclGrows d e
  | imports (m : Mark) {ss ts : List Node} {grouped grouped' : Bool} (opened : ¬ ImportsC ss)
      (grouping : grouped = true → grouped' = true) (specs : List.SublistForall₂ Node.Grows ss ts) :
      Node.DeclGrows (.importDecl m ss grouped) (.importDecl m ts grouped')

/-- A file that has kept all it had: its declarations are found again in order, and the rows recorded in
it are the same. -/
structure SourceFile.Grows (old new : SourceFile) : Prop where
  mark : new.mark = old.mark
  identifiers : new.identifiers = old.identifiers
  decls : List.SublistForall₂ Node.DeclGrows old.decls new.decls
  spans : new.toNode.spans = old.toNode.spans

theorem Node.Grows.spec?_eq {a b : Node} (h : a.Grows b) : b.spec? = a.spec? := by
  cases h <;> rfl

theorem GrowsAll.specs_eq {ns ns' : List Node} (h : GrowsAll ns ns') :
    Imports.specs ns' = Imports.specs ns := by
  induction growsAll_iff.mp h with
  | nil => rfl
  | @cons n n' ns ns' head tail ih =>
    have hrest := ih (growsAll_iff.mpr tail)
    unfold Imports.specs at hrest ⊢
    rw [List.filterMap_cons, List.filterMap_cons, head.spec?_eq, hrest]

theorem GrowsAll.importsC_iff {ns ns' : List Node} (h : GrowsAll ns ns') :
    Imports.ImportsC ns' ↔ Imports.ImportsC ns := by
  rw [Imports.ImportsC, Imports.ImportsC, h.specs_eq]

theorem GrowsAll.sublistForall₂ {ns ns' : List Node} (h : GrowsAll ns ns') :
    List.SublistForall₂ Node.Grows ns ns' :=
  List.sublistForall₂_iff.mpr ⟨ns', growsAll_iff.mp h, List.Sublist.refl _⟩

namespace Node.DeclGrows

theorem refl (d : Node) : d.DeclGrows d := .node (.refl d)

theorem trans {a b c : Node} (h : a.DeclGrows b) (h' : b.DeclGrows c) : a.DeclGrows c := by
  cases h with
  | node h =>
    cases h' with
    | node h' => exact .node (h.trans h')
    | imports m opened grouping specs =>
      cases h with
      | refl => exact .imports m opened grouping specs
      | importDecl _ _ below =>
        refine .imports m (fun hC => opened (below.importsC_iff.mpr hC)) grouping ?_
        exact IsTrans.trans _ _ _ below.sublistForall₂ specs
  | imports m opened grouping specs =>
    cases h' with
    | node h' =>
      cases h' with
      | refl => exact .imports m opened grouping specs
      | importDecl _ _ below =>
        exact .imports m opened grouping (IsTrans.trans _ _ _ specs below.sublistForall₂)
    | imports _ _ grouping' specs' =>
      exact .imports m opened (grouping' ∘ grouping) (IsTrans.trans _ _ _ specs specs')

end Node.DeclGrows

instance : Std.Refl Node.DeclGrows := ⟨Node.DeclGrows.refl⟩

instance : IsTrans Node Node.DeclGrows := ⟨fun _ _ _ => Node.DeclGrows.trans⟩

theorem sublistForall₂_flatMap {α β : Type} {R : α → α → Prop} {S : β → β → Prop} {g : α → List β}
    (hg : ∀ a a', R a a' → List.SublistForall₂ S (g a) (g a')) {as as' : List α}
    (h : List.SublistForall₂ R as as') : List.SublistForall₂ S (as.flatMap g) (as'.flatMap g) := by
  induction h with
  | nil => exact .nil
  | cons head _ ih => exact sublistForall₂_append (hg _ _ head) ih
  | cons_right _ ih => exact sublistForall₂_append .nil ih

theorem Node.DeclGrows.functions {d e : Node} (h : d.DeclGrows e) :
    List.SublistForall₂ Function.Grows d.functions e.functions := by
  cases h with
  | node h => exact h.functions
  | imports m _ _ specs =>
    rw [functions_importDecl, functions_importDecl]
    exact sublistForall₂_flatMap (R := Node.Grows) (fun _ _ h => h.functions) specs

namespace SourceFile

theorem toNode_spans (f : SourceFile) :
    f.toNode.spans = f.mark.span.toList ++ f.decls.flatMap Node.spans :=
  Node.spans_eq _

namespace Grows

theorem refl (f : SourceFile) : f.Grows f := ⟨rfl, rfl, Std.Refl.refl f.decls, rfl⟩

theorem trans {f g h : SourceFile} (hfg : f.Grows g) (hgh : g.Grows h) : f.Grows h where
  mark := hgh.mark.trans hfg.mark
  identifiers := hgh.identifiers.trans hfg.identifiers
  decls := IsTrans.trans _ _ _ hfg.decls hgh.decls
  spans := hgh.spans.trans hfg.spans

/-- The functions of the old file are found again, in the order of the walk. -/
theorem functions {f g : SourceFile} (h : f.Grows g) :
    List.SublistForall₂ Function.Grows f.toNode.functions g.toNode.functions := by
  rw [toNode, toNode, functions_sourceFile, functions_sourceFile]
  exact sublistForall₂_flatMap (R := Node.DeclGrows) (fun _ _ h => h.functions) h.decls

/-- Growth of the declarations one by one is growth of the file. -/
theorem of_decls {f : SourceFile} {ds : List Node} (h : GrowsAll f.decls ds)
    (hspans : ds.flatMap Node.spans = f.decls.flatMap Node.spans) :
    f.Grows { f with decls := ds } where
  mark := rfl
  identifiers := rfl
  decls := List.sublistForall₂_iff.mpr
    ⟨ds, (growsAll_iff.mp h).imp fun _ _ => .node, List.Sublist.refl _⟩
  spans := by rw [toNode_spans, toNode_spans, hspans]

/-- Adding an import is growth. -/
theorem of_extends {f : SourceFile} {path : Text} {ds : List Node}
    (h : Imports.Extends path f.decls ds) : f.Grows { f with decls := ds } := by
  have hentry : (Imports.newEntry path).spans = [] := rfl
  generalize hds : f.decls = old at h
  cases h with
  | entry before after m left right grouped opened =>
    refine ⟨rfl, rfl, ?_, ?_⟩
    · rw [hds]
      refine sublistForall₂_append (Std.Refl.refl before) (.cons ?_ (Std.Refl.refl after))
      refine .imports m opened (fun hgrouped => by simp [hgrouped]) ?_
      exact ((List.sublist_cons_self _ right).append_left left).sublistForall₂
    · simp [toNode_spans, hds, Node.spans_eq (.importDecl ..), Node.mark, Node.children, hentry]
  | decl before after =>
    refine ⟨rfl, rfl, ?_, ?_⟩
    · rw [hds]
      exact sublistForall₂_append (Std.Refl.refl before) (.cons_right (Std.Refl.refl after))
    · simp [toNode_spans, hds, Node.spans_eq (.importDecl ..), Node.mark, Node.children, hentry]

theorem of_ensureImports (f : SourceFile) (paths : List Text) :
    f.Grows (f.ensureImports paths).2 := by
  induction paths generalizing f with
  | nil => exact .refl f
  | cons path paths ih =>
    unfold ensureImports
    split
    · exact ih f
    · have hadd : f.Grows (f.addImport path) := of_extends (Imports.add_extends path f.decls)
      exact hadd.trans (ih (f.addImport path))

end Grows

end SourceFile

end Stopwatch
