import Mathlib
import Stopwatch.Proofs.FreshNames
import Stopwatch.Timing.Transform

/-!
# Weaving the pairs into a tree

`Node.instrument` walks a tree once, taking names as it goes. Here the walk is compared with its
declarative description: the list of the functions of the tree in pre-order, gone through one by one.

* `Node.untimed` takes the pairs out again: it drops the first two statements of every candidate. It is a
  case of `Node.mapBodies`, which changes the statement lists of all functions, inner ones first.
* `Weaves plan olds p news p'`: timing the functions `olds` in turn, starting from the progress `p`, gives
  the functions `news` and the progress `p'`. Its constructors say all that can happen to a function:
  a candidate gets the pair for the next free name in front of its statements, any other is kept.

Results:
* `Node.instrument_weaves`: the walk weaves the functions of the tree in pre-order, and taking the pairs
  out gives the old tree back, so nothing else differs.
* `Weaves.progress_eq`: the names are those one run of the allocator hands out, and the functions are
  reported in that order.
* `Weaves.candidates`, `Weaves.skipped`: the same, read off the lists of candidates and of other functions.
-/

namespace Stopwatch

/-! ## Changing the bodies of all functions -/

mutual

/-- The tree below a node with the statements of every function changed by `g`, inner functions first. -/
def Node.mapBodies (g : FuncHead → List Node → List Node) : Node → Node
  | .sourceFile m ds ids => .sourceFile m (mapBodiesAll g ds) ids
  | .importDecl m ss b => .importDecl m (mapBodiesAll g ss) b
  | .funcDecl m h none => .funcDecl m h none
  | .funcDecl m h (some ⟨bm, ss⟩) => .funcDecl m h (some ⟨bm, g h (mapBodiesAll g ss)⟩)
  | .block ⟨m, ss⟩ => .block ⟨m, mapBodiesAll g ss⟩
  | .selectorExpr m x s => .selectorExpr m (x.mapBodies g) s
  | .callExpr m f as => .callExpr m (f.mapBodies g) (mapBodiesAll g as)
  | .funcLit m ⟨bm, ss⟩ => .funcLit m ⟨bm, mapBodiesAll g ss⟩
  | .assignStmt m l t r => .assignStmt m (mapBodiesAll g l) t (mapBodiesAll g r)
  | .deferStmt m c => .deferStmt m (c.mapBodies g)
  | .exprStmt m x => .exprStmt m (x.mapBodies g)
  | .packageClause m n => .packageClause m n
  | .importSpec m s => .importSpec m s
  | .rawStmt m k f => .rawStmt m k f
  | .rawDecl m k f => .rawDecl m k f
  | .comment m f => .comment m f
  | .ident m n => .ident m n
  | .basicLit m v => .basicLit m v
termination_by structural n => n

/-- `Node.mapBodies` along a list. -/
def mapBodiesAll (g : FuncHead → List Node → List Node) : List Node → List Node
  | [] => []
  | n :: ns => n.mapBodies g :: mapBodiesAll g ns
termination_by structural ns => ns

end

theorem mapBodiesAll_eq_map (g : FuncHead → List Node → List Node) (ns : List Node) :
    mapBodiesAll g ns = ns.map (Node.mapBodies g) := by
  induction ns with
  | nil => rfl
  | cons n ns ih => rw [mapBodiesAll, ih, List.map_cons]

/-- The tree below a node without the two statements that timing puts in front of every candidate. -/
def Node.untimed (skip : Text) (n : Node) : Node :=
  n.mapBodies fun h ss => if h.isSkipped skip then ss else ss.drop 2

/-- `Node.untimed` along a list. -/
def untimedAll (skip : Text) (ns : List Node) : List Node := ns.map (Node.untimed skip)

theorem mapBodiesAll_untimed (skip : Text) (ns : List Node) :
    mapBodiesAll (fun h ss => if h.isSkipped skip then ss else ss.drop 2) ns = untimedAll skip ns :=
  mapBodiesAll_eq_map _ ns

@[simp] theorem untimedAll_nil (skip : Text) : untimedAll skip [] = [] := rfl

@[simp] theorem untimedAll_cons (skip : Text) (n : Node) (ns : List Node) :
    untimedAll skip (n :: ns) = n.untimed skip :: untimedAll skip ns := rfl

@[simp] theorem untimedAll_append (skip : Text) (ms ns : List Node) :
    untimedAll skip (ms ++ ns) = untimedAll skip ms ++ untimedAll skip ns := List.map_append

@[simp] theorem length_untimedAll (skip : Text) (ns : List Node) :
    (untimedAll skip ns).length = ns.length := List.length_map _

/-! ## The functions of a tree -/

/-- The functions of a tree are the one at its root, if there is one, and then those below it. -/
theorem Node.functions_eq (n : Node) :
    n.functions = (Event.enter n).function?.toList ++ n.children.flatMap Node.functions := by
  have hinner : (n.children.flatMap (Node.walk fun _ => true)).filterMap Event.function? =
      n.children.flatMap Node.functions := by
    rw [List.filterMap_flatMap]
    rfl
  have hleave : (Event.leave n).function? = none := rfl
  rw [Node.functions, Node.walk_eq, Event.around, if_pos rfl]
  cases h : (Event.enter n).function? with
  | none => simp [h, hleave, hinner]
  | some f => simp [h, hleave, hinner]

@[simp] theorem functions_sourceFile (m : Mark) (ds : List Node) (ids : List Text) :
    (Node.sourceFile m ds ids).functions = ds.flatMap Node.functions :=
  Node.functions_eq _

@[simp] theorem functions_importDecl (m : Mark) (ss : List Node) (b : Bool) :
    (Node.importDecl m ss b).functions = ss.flatMap Node.functions :=
  Node.functions_eq _

@[simp] theorem functions_block (b : Body Node) :
    (Node.block b).functions = b.stmts.flatMap Node.functions :=
  Node.functions_eq _

@[simp] theorem functions_funcDecl_none (m : Mark) (h : FuncHead) :
    (Node.funcDecl m h none).functions = [⟨m, h, none⟩] :=
  Node.functions_eq _

@[simp] theorem functions_funcDecl_some (m : Mark) (h : FuncHead) (b : Body Node) :
    (Node.funcDecl m h (some b)).functions = ⟨m, h, some b⟩ :: b.stmts.flatMap Node.functions := by
  rw [Node.functions_eq]
  simp [Event.function?, Node.children]

@[simp] theorem functions_selectorExpr (m : Mark) (x : Node) (s : Text) :
    (Node.selectorExpr m x s).functions = x.functions := by
  rw [Node.functions_eq]
  simp [Event.function?, Node.children]

@[simp] theorem functions_callExpr (m : Mark) (f : Node) (as : List Node) :
    (Node.callExpr m f as).functions = f.functions ++ as.flatMap Node.functions :=
  Node.functions_eq _

@[simp] theorem functions_funcLit (m : Mark) (b : Body Node) :
    (Node.funcLit m b).functions = b.stmts.flatMap Node.functions := by
  rw [Node.functions_eq]
  simp [Event.function?, Node.children]

@[simp] theorem functions_assignStmt (m : Mark) (l : List Node) (t : Text) (r : List Node) :
    (Node.assignStmt m l t r).functions = l.flatMap Node.functions ++ r.flatMap Node.functions := by
  rw [Node.functions_eq]
  simp [Event.function?, Node.children]

@[simp] theorem functions_deferStmt (m : Mark) (c : Node) :
    (Node.deferStmt m c).functions = c.functions := by
  rw [Node.functions_eq]
  simp [Event.function?, Node.children]

@[simp] theorem functions_exprStmt (m : Mark) (x : Node) :
    (Node.exprStmt m x).functions = x.functions := by
  rw [Node.functions_eq]
  simp [Event.function?, Node.children]

@[simp] theorem functions_ident (m : Mark) (n : Text) : (Node.ident m n).functions = [] := rfl

@[simp] theorem functions_basicLit (m : Mark) (v : Text) : (Node.basicLit m v).functions = [] := rfl

@[simp] theorem functions_importSpec (m : Mark) (s : ImportSpec) :
    (Node.importSpec m s).functions = [] := rfl

@[simp] theorem functions_packageClause (m : Mark) (n : Text) :
    (Node.packageClause m n).functions = [] := rfl

@[simp] theorem functions_rawStmt (m : Mark) (k : String) (f : Fragment) :
    (Node.rawStmt m k f).functions = [] := rfl

@[simp] theorem functions_rawDecl (m : Mark) (k : String) (f : Fragment) :
    (Node.rawDecl m k f).functions = [] := rfl

@[simp] theorem functions_comment (m : Mark) (f : Fragment) :
    (Node.comment m f).functions = [] := rfl

/-- A pair holds no function declaration. -/
theorem functions_pair (template name identifier : Text) :
    (Pair.build template name identifier).stmts.flatMap Node.functions = [] := by
  simp [Pair.build, Pair.stmts, Pair.printCall, Pair.selector]

/-! ## One function after another -/

/-- What timing makes of a candidate: the pair stands in front of the old statements. -/
def Function.TimedBy (skip : Text) (pair : Pair) (old new : Function) : Prop :=
  ∃ mark stmts, old.body = some ⟨mark, untimedAll skip stmts⟩ ∧
    new = ⟨old.mark, old.head, some ⟨mark, pair.stmts ++ stmts⟩⟩

/-- What timing makes of any other function: its own statements, or its lack of a body, are kept. -/
def Function.KeptAs (skip : Text) (old new : Function) : Prop :=
  new.mark = old.mark ∧ new.head = old.head ∧
    old.body = new.body.map fun b => ⟨b.mark, untimedAll skip b.stmts⟩

/-- Timing functions in turn: the functions before, the progress before, the functions after and the
progress after. -/
inductive Weaves (plan : Plan) : List Function → Progress → List Function → Progress → Prop
  | nil (p : Progress) : Weaves plan [] p [] p
  | timed {old new : Function} {olds news : List Function} {p p' : Progress}
      (hold : old.isCandidate plan.skipPrefix = true)
      (hnew : old.TimedBy plan.skipPrefix (plan.time old.mark old.head p).1 new)
      (rest : Weaves plan olds (plan.time old.mark old.head p).2 news p') :
      Weaves plan (old :: olds) p (new :: news) p'
  | kept {old new : Function} {olds news : List Function} {p p' : Progress}
      (hold : old.isCandidate plan.skipPrefix = false) (hnew : old.KeptAs plan.skipPrefix new)
      (rest : Weaves plan olds p news p') : Weaves plan (old :: olds) p (new :: news) p'

namespace Weaves

variable {plan : Plan}

theorem append {olds₁ olds₂ news₁ news₂ : List Function} {p p₁ p₂ : Progress}
    (h₁ : Weaves plan olds₁ p news₁ p₁) (h₂ : Weaves plan olds₂ p₁ news₂ p₂) :
    Weaves plan (olds₁ ++ olds₂) p (news₁ ++ news₂) p₂ := by
  induction h₁ with
  | nil => exact h₂
  | timed hold hnew _ ih => exact .timed hold hnew (ih h₂)
  | kept hold hnew _ ih => exact .kept hold hnew (ih h₂)

end Weaves

mutual

/-- **The walk weaves the functions of the tree in pre-order**, and taking the pairs out gives the old
tree back. -/
theorem Node.instrument_weaves (plan : Plan) : ∀ (n : Node) (p : Progress),
    (n.instrument plan p).1.untimed plan.skipPrefix = n ∧
      Weaves plan n.functions p (n.instrument plan p).1.functions (n.instrument plan p).2
  | .sourceFile m ds ids, p => by
    obtain ⟨hu, hw⟩ := instrumentAll_weaves plan ds p
    refine ⟨?_, by simpa [Node.instrument] using hw⟩
    simp only [Node.instrument, Node.untimed, Node.mapBodies, mapBodiesAll_untimed, hu]
  | .importDecl m ss g, p => by
    obtain ⟨hu, hw⟩ := instrumentAll_weaves plan ss p
    refine ⟨?_, by simpa [Node.instrument] using hw⟩
    simp only [Node.instrument, Node.untimed, Node.mapBodies, mapBodiesAll_untimed, hu]
  | .funcDecl m h none, p => by
    have hcand : (Function.mk m h none).isCandidate plan.skipPrefix = false := by
      simp [Function.isCandidate]
    exact ⟨rfl, .kept hcand ⟨rfl, rfl, rfl⟩ (.nil p)⟩
  | .funcDecl m h (some ⟨bm, ss⟩), p => by
    cases hskip : h.isSkipped plan.skipPrefix with
    | true =>
      obtain ⟨hu, hw⟩ := instrumentAll_weaves plan ss p
      have hcand : (Function.mk m h (some ⟨bm, ss⟩)).isCandidate plan.skipPrefix = false := by
        simp [Function.isCandidate, hskip]
      have hnew : (Node.funcDecl m h (some ⟨bm, ss⟩)).instrument plan p =
          (.funcDecl m h (some ⟨bm, (instrumentAll plan ss p).1⟩), (instrumentAll plan ss p).2) := by
        simp only [Node.instrument, hskip, if_true]
      rw [hnew]
      refine ⟨?_, ?_⟩
      · simp only [Node.untimed, Node.mapBodies, mapBodiesAll_untimed, hskip, if_true, hu]
      · simp only [functions_funcDecl_some]
        exact .kept hcand ⟨rfl, rfl, by simp [hu]⟩ hw
    | false =>
      -- The function takes its name before the functions inside it.
      obtain ⟨hu, hw⟩ := instrumentAll_weaves plan ss (plan.time m h p).2
      have hcand : (Function.mk m h (some ⟨bm, ss⟩)).isCandidate plan.skipPrefix = true := by
        simp [Function.isCandidate, hskip]
      have hnew : (Node.funcDecl m h (some ⟨bm, ss⟩)).instrument plan p =
          (.funcDecl m h (some ⟨bm, (plan.time m h p).1.stmts ++
            (instrumentAll plan ss (plan.time m h p).2).1⟩),
            (instrumentAll plan ss (plan.time m h p).2).2) := by
        simp only [Node.instrument, hskip, Bool.false_eq_true, if_false]
      rw [hnew]
      refine ⟨?_, ?_⟩
      · simp only [Node.untimed, Node.mapBodies, mapBodiesAll_untimed, hskip, Bool.false_eq_true,
          if_false, untimedAll_append, hu]
        exact congrArg (fun l => Node.funcDecl m h (some ⟨bm, l⟩)) (List.drop_left' rfl)
      · have hpair : (plan.time m h p).1.stmts.flatMap Node.functions = [] := functions_pair _ _ _
        simp only [functions_funcDecl_some, List.flatMap_append, hpair, List.nil_append]
        exact .timed hcand ⟨bm, (instrumentAll plan ss (plan.time m h p).2).1, by rw [hu], rfl⟩ hw
  | .block ⟨bm, ss⟩, p => by
    obtain ⟨hu, hw⟩ := instrumentAll_weaves plan ss p
    refine ⟨?_, by simpa [Node.instrument] using hw⟩
    simp only [Node.instrument, Node.untimed, Node.mapBodies, mapBodiesAll_untimed, hu]
  | .selectorExpr m x s, p => by
    obtain ⟨hu, hw⟩ := Node.instrument_weaves plan x p
    refine ⟨?_, by simpa [Node.instrument] using hw⟩
    exact congrArg (Node.selectorExpr m · s) hu
  | .callExpr m f as, p => by
    obtain ⟨huf, hwf⟩ := Node.instrument_weaves plan f p
    obtain ⟨hu, hw⟩ := instrumentAll_weaves plan as (f.instrument plan p).2
    refine ⟨?_, by simpa [Node.instrument] using hwf.append hw⟩
    simp only [Node.instrument, Node.untimed, Node.mapBodies, mapBodiesAll_untimed, hu]
    exact congrArg (Node.callExpr m · as) huf
  | .funcLit m ⟨bm, ss⟩, p => by
    obtain ⟨hu, hw⟩ := instrumentAll_weaves plan ss p
    refine ⟨?_, by simpa [Node.instrument] using hw⟩
    simp only [Node.instrument, Node.untimed, Node.mapBodies, mapBodiesAll_untimed, hu]
  | .assignStmt m l t r, p => by
    obtain ⟨hul, hwl⟩ := instrumentAll_weaves plan l p
    obtain ⟨hur, hwr⟩ := instrumentAll_weaves plan r (instrumentAll plan l p).2
    refine ⟨?_, by simpa [Node.instrument] using hwl.append hwr⟩
    simp only [Node.instrument, Node.untimed, Node.mapBodies, mapBodiesAll_untimed, hul, hur]
  | .deferStmt m c, p => by
    obtain ⟨hu, hw⟩ := Node.instrument_weaves plan c p
    refine ⟨?_, by simpa [Node.instrument] using hw⟩
    exact congrArg (Node.deferStmt m) hu
  | .exprStmt m x, p => by
    obtain ⟨hu, hw⟩ := Node.instrument_weaves plan x p
    refine ⟨?_, by simpa [Node.instrument] using hw⟩
    exact congrArg (Node.exprStmt m) hu
  | .packageClause .., p => ⟨rfl, .nil p⟩
  | .importSpec .., p => ⟨rfl, .nil p⟩
  | .rawStmt .., p => ⟨rfl, .nil p⟩
  | .rawDecl .., p => ⟨rfl, .nil p⟩
  | .comment .., p => ⟨rfl, .nil p⟩
  | .ident .., p => ⟨rfl, .nil p⟩
  | .basicLit .., p => ⟨rfl, .nil p⟩
termination_by structural n => n

theorem instrumentAll_weaves (plan : Plan) : ∀ (ns : List Node) (p : Progress),
    untimedAll plan.skipPrefix (instrumentAll plan ns p).1 = ns ∧
      Weaves plan (ns.flatMap Node.functions) p ((instrumentAll plan ns p).1.flatMap Node.functions)
        (instrumentAll plan ns p).2
  | [], p => ⟨rfl, .nil p⟩
  | n :: ns, p => by
    obtain ⟨hu, hw⟩ := Node.instrument_weaves plan n p
    obtain ⟨hus, hws⟩ := instrumentAll_weaves plan ns (n.instrument plan p).2
    refine ⟨by simp only [instrumentAll, untimedAll_cons, hu, hus], ?_⟩
    simpa [instrumentAll] using hw.append hws
termination_by structural ns => ns

end

/-! ## What a run of timings amounts to -/

/-- The report on functions that were timed with the given start variables. -/
def reportOn (functions : List Function) (identifiers : List Text) : List TimedFunction :=
  List.zipWith (fun f id => ⟨f.head.qualifiedName, id, f.mark.line?⟩) functions identifiers

namespace Weaves

variable {plan : Plan} {olds news : List Function} {p p' : Progress}

/-- The names handed out when `n` functions are timed one after another. -/
def names (plan : Plan) (p : Progress) (n : Nat) : List Text × Names :=
  p.names.allocateAll (List.replicate n plan.startIdentifier)

/-- The names come from one run of the allocator, and the functions are reported in that order. -/
theorem progress_eq (h : Weaves plan olds p news p') :
    let cs := olds.filter (Function.isCandidate plan.skipPrefix)
    p'.timed = p.timed ++ reportOn cs (names plan p cs.length).1 ∧
      p'.names = (names plan p cs.length).2 := by
  induction h with
  | nil p => simp [reportOn, names, Names.allocateAll]
  | @timed old new olds news p p' hold hnew _ ih =>
    rw [List.filter_cons_of_pos hold]
    obtain ⟨ht, hn⟩ := ih
    refine ⟨?_, hn⟩
    rw [ht]
    simp [Plan.time, reportOn, names, List.replicate_succ, Names.allocateAll_cons]
  | kept hold hnew _ ih =>
    rw [List.filter_cons_of_neg (by simp [hold])]
    exact ih

theorem isCandidate_of_timedBy {skip : Text} {pair : Pair} {old new : Function}
    (hold : old.isCandidate skip = true) (h : old.TimedBy skip pair new) :
    new.isCandidate skip = true := by
  obtain ⟨mark, stmts, hbody, rfl⟩ := h
  simpa [Function.isCandidate, hbody] using hold

theorem isCandidate_of_keptAs {skip : Text} {old new : Function} (h : old.KeptAs skip new) :
    new.isCandidate skip = old.isCandidate skip := by
  obtain ⟨-, hhead, hbody⟩ := h
  rw [Function.isCandidate, Function.isCandidate, hhead, hbody, Option.isSome_map]

/-- Each candidate gets the pair for its name and the next free identifier. -/
theorem candidates (h : Weaves plan olds p news p') :
    let cs := olds.filter (Function.isCandidate plan.skipPrefix)
    List.Forall₂
      (fun c new => c.1.TimedBy plan.skipPrefix
        (Pair.build plan.reportTemplate c.1.head.qualifiedName c.2) new)
      (cs.zip (names plan p cs.length).1) (news.filter (Function.isCandidate plan.skipPrefix)) := by
  induction h with
  | nil => exact .nil
  | timed hold hnew _ ih =>
    rw [List.filter_cons_of_pos hold,
      List.filter_cons_of_pos (isCandidate_of_timedBy hold hnew)]
    exact .cons hnew ih
  | kept hold hnew _ ih =>
    have hnot := isCandidate_of_keptAs hnew
    rw [List.filter_cons_of_neg (by simp [hold]), List.filter_cons_of_neg (by simp [hnot, hold])]
    exact ih

/-- Every other function is kept. -/
theorem skipped (h : Weaves plan olds p news p') :
    List.Forall₂ (Function.KeptAs plan.skipPrefix)
      (olds.filter fun f => !f.isCandidate plan.skipPrefix)
      (news.filter fun f => !f.isCandidate plan.skipPrefix) := by
  induction h with
  | nil => exact .nil
  | timed hold hnew _ ih =>
    have hcand := isCandidate_of_timedBy hold hnew
    rw [List.filter_cons_of_neg (by simp [hold]), List.filter_cons_of_neg (by simp [hcand])]
    exact ih
  | kept hold hnew _ ih =>
    have hnot := isCandidate_of_keptAs hnew
    rw [List.filter_cons_of_pos (by simp [hold]), List.filter_cons_of_pos (by simp [hnot, hold])]
    exact .cons hnew ih

end Weaves

end Stopwatch
