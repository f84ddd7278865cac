import Mathlib
import Stopwatch.Proofs.Visits
import Stopwatch.Timing.Scan

/-!
# What a scan finds

A scan is a visit that goes everywhere, so its calls are those of the traversal of the whole tree. What it
notes are the functions among the sites entered, and it notes each on one of its two lists.

Results:
* `Scan.foldl_hear`: what calls add to the two lists.
* `Scan.exists_functions`: the lists are chosen from the functions of the tree in pre-order.
* `Scan.partition`: they part these functions in two.
* `Node.visit_traverses_scan_partitions`: visits are traversals, and so scans are partitions.
-/

namespace Stopwatch

universe u

/-- Whether the node at a site is a function. -/
def Site.isFunction (s : Site) : Bool := s.function?.isSome

/-- Whether the node at a site is a function to be timed. -/
def Site.isCandidate (skip : Text) (s : Site) : Bool := s.function?.any (Function.isCandidate skip)

namespace Scan

variable (skip : Text)

/-! ## The visitor of a scan -/

theorem function?_of_className {s : Site} (h : s.node.className ≠ "FuncDecl") : s.function? = none := by
  unfold Site.function?
  cases hs : s.node with
  | funcDecl m head body => exact absurd (by rw [hs]; rfl) h
  | _ => rfl

theorem enter_visitor (s : Site) (scan : Scan) :
    (hooks skip).visitor.enter s scan = (true, scan.note skip s) := by
  by_cases h : s.node.className = "FuncDecl"
  · simp [Hooks.visitor, hooks, h]
  · simp [Hooks.visitor, hooks, h, note, function?_of_className h]

theorem decides_visitor : (hooks skip).visitor.Decides fun _ => true := by
  intro s scan
  rw [enter_visitor]

/-- Put the functions among some sites on the lists. -/
def noteAll (sites : List Site) (scan : Scan) : Scan where
  candidates := scan.candidates ++ (sites.filter Site.isFunction).filter (Site.isCandidate skip)
  skipped := scan.skipped ++ (sites.filter Site.isFunction).filter fun s => !s.isCandidate skip

theorem note_eq (s : Site) (scan : Scan) : scan.note skip s = scan.noteAll skip [s] := by
  unfold note noteAll Site.isCandidate Site.isFunction
  cases hf : s.function? with
  | none => simp [hf]
  | some f => cases hc : f.isCandidate skip <;> simp [hf, hc]

theorem noteAll_append (sites others : List Site) (scan : Scan) :
    scan.noteAll skip (sites ++ others) = (scan.noteAll skip sites).noteAll skip others := by
  simp [noteAll]

/-- A scan puts the functions among the sites that are entered on its lists. -/
theorem foldl_hear (calls : List Call) (scan : Scan) :
    calls.foldl (hooks skip).visitor.hear scan = scan.noteAll skip (Call.entered calls) := by
  induction calls generalizing scan with
  | nil => simp [Call.entered, noteAll]
  | cons call calls ih =>
    cases call with
    | leave s => exact ih scan
    | enter s answer =>
      have hhear : (hooks skip).visitor.hear scan (.enter s answer) = scan.noteAll skip [s] := by
        rw [Visitor.hear, enter_visitor, note_eq]
      rw [List.foldl_cons, hhear, ih, ← noteAll_append]
      rfl

/-! ## The functions of a tree -/

/-- Choosing sites and choosing the functions at them is the same, if the choice goes by the function. -/
theorem filterMap_function?_filter {p : Site → Bool} {q : Function → Bool}
    (h : ∀ s f, s.function? = some f → p s = q f) (sites : List Site) :
    (sites.filter p).filterMap Site.function? = (sites.filterMap Site.function?).filter q := by
  rw [List.filterMap_filter, List.filter_filterMap]
  refine List.filterMap_congr fun s _ => ?_
  cases hf : s.function? with
  | none => simp
  | some f => simp [h s f hf, Option.filter]

theorem filterMap_function?_entered {root : Node} {calls : List Call}
    (hevents : calls.map Call.event = root.walk fun _ => true) :
    (Call.entered calls).filterMap Site.function? = root.functions := by
  rw [Node.functions, ← hevents, Call.entered, List.filterMap_filterMap, List.filterMap_map]
  refine List.filterMap_congr fun call _ => ?_
  cases call <;> rfl

/-- **The lists of a scan are chosen from the functions of the tree**, which are at these sites: all that
there are, in pre-order. -/
theorem exists_functions (root : Node) : ∃ functions : List Site,
    (functions.Pairwise fun x y => x.route.PreorderLt y.route) ∧
    (∀ s, s ∈ functions ↔ root.Holds s ∧ s.isFunction = true) ∧
    functions.filterMap Site.function? = root.functions ∧
    (root.scan skip).candidates = functions.filter (Site.isCandidate skip) ∧
    (root.scan skip).skipped = functions.filter fun s => !s.isCandidate skip := by
  have hvisit := (hooks skip).visitor.faithful root {}
  have htraversal := hvisit.decided _ (decides_visitor skip)
  have hevents := hvisit.events (fun _ => true) (decides_visitor skip)
  have hreplay : _ = root.scan skip := hvisit.replay
  set calls := (hooks skip).visitor.calls root {}
  have hentered (s : Site) : s ∈ Call.entered calls ↔ root.Holds s := by
    rw [htraversal.mem_entered]
    simp
  have hscan : root.scan skip = Scan.noteAll skip (Call.entered calls) {} :=
    hreplay.symm.trans (foldl_hear skip calls {})
  refine ⟨(Call.entered calls).filter Site.isFunction, htraversal.preorder.filter _, ?_, ?_,
    congrArg Scan.candidates hscan, congrArg Scan.skipped hscan⟩
  · intro s
    rw [List.mem_filter, hentered]
  · have hall (s : Site) (f : Function) (hf : s.function? = some f) : s.isFunction = true := by
      rw [Site.isFunction, hf]
      rfl
    rw [filterMap_function?_filter hall, List.filter_true, filterMap_function?_entered hevents]

/-! ## The partition -/

/-- The lists of a scan part the functions of the tree in two. -/
structure Partition (root : Node) (scan : Scan) : Prop where
  /-- No function is on both lists. -/
  disjoint : scan.candidates.Disjoint scan.skipped
  /-- No function is on a list twice. -/
  once : (scan.candidates ++ scan.skipped).Nodup
  /-- Every function of the tree, at any depth, is on one of them, and nothing else. -/
  mem_iff : ∀ s, s ∈ scan.candidates ++ scan.skipped ↔ root.Holds s ∧ s.isFunction = true
  /-- Both are chosen from the functions in pre-order, by whether a function is a candidate. -/
  chosen : ∃ functions : List Site,
    (functions.Pairwise fun x y => x.route.PreorderLt y.route) ∧
    (∀ s, s ∈ functions ↔ root.Holds s ∧ s.isFunction = true) ∧
    scan.candidates = functions.filter (Site.isCandidate skip) ∧
    scan.skipped = functions.filter fun s => !s.isCandidate skip
  /-- The functions at these sites are the candidates and the others that a walk finds. -/
  functions_eq : scan.candidates.filterMap Site.function? = root.candidates skip ∧
    scan.skipped.filterMap Site.function? = root.skipped skip

/-- **A scan parts the functions of a tree into candidates and others.** -/
theorem partition (root : Node) : Partition skip root (root.scan skip) := by
  obtain ⟨functions, hpreorder, hmem, hfunctions, hcandidates, hskipped⟩ := exists_functions skip root
  have hperm : ((root.scan skip).candidates ++ (root.scan skip).skipped).Perm functions := by
    rw [hcandidates, hskipped]
    exact List.filter_append_perm (Site.isCandidate skip) functions
  have hnodup : functions.Nodup := hpreorder.imp fun hlt heq => hlt.ne (congrArg Site.route heq)
  have honce := hperm.nodup_iff.mpr hnodup
  have hchoice (s : Site) (f : Function) (hf : s.function? = some f) :
      s.isCandidate skip = f.isCandidate skip := by
    rw [Site.isCandidate, hf]
    rfl
  exact {
    disjoint := (List.nodup_append'.mp honce).2.2
    once := honce
    mem_iff := fun s => hperm.mem_iff.trans (hmem s)
    chosen := ⟨functions, hpreorder, hmem, hcandidates, hskipped⟩
    functions_eq := by
      constructor
      · rw [hcandidates, filterMap_function?_filter hchoice, hfunctions, Node.candidates]
      · rw [hskipped, filterMap_function?_filter fun s f hf => congrArg not (hchoice s f hf),
          hfunctions, Node.skipped] }

end Scan

/-- **Visits are traversals, and scans are partitions.** A visit to a tree enters and leaves, nested and
once each, the sites that have none above them where the visitor does not go on; it enters them in pre-order
and leaves them in post-order, in the order of fields. So a scan finds each function of the tree once, in
pre-order, and puts it on the list where it belongs. -/
theorem Node.visit_traverses_scan_partitions (root : Node) :
    (∀ (σ : Type u) (v : Visitor σ) (state : σ), v.Faithful root state) ∧
      ∀ skip : Text, Scan.Partition skip root (root.scan skip) :=
  ⟨fun _ v state => v.faithful root state, fun skip => Scan.partition skip root⟩

/-- Two functions that are alike are found at both their sites, the second one inside a literal. -/
example :
    let function : Node := .funcDecl {} { name := utf8 "f", signature := [] } (some {})
    let literal : Node := .exprStmt {} (.funcLit {} { stmts := [function] })
    (((Node.sourceFile {} [function, literal] []).scan (utf8 "Test")).candidates.map Site.route) =
      [[⟨1, 0⟩], [⟨1, 1⟩, ⟨1, 0⟩, ⟨1, 0⟩, ⟨1, 0⟩]] := by
  cbv

end Stopwatch
