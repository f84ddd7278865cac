import Mathlib
import Stopwatch.Proofs.Sites

/-!
# What a visit tells its visitor

A visit is seen through its calls: each site it comes to, with the answer it got, and each site it leaves.
`Visitor.traced` is a visitor that also writes these calls down. `Visitor.Makes v ss state calls state'` says
what the visits to the sites `ss`, one after another, can do: each enters its site, goes through the sites
below if the answer was to go on, and leaves. All that is known of the calls is an induction on this relation.

A visitor may decide by the node where not to go on, or by all that it was told before. Either way its
answers in one visit are a decision by site, since no site is entered twice.

Results:
* `Visitor.writes`: a visit makes such calls, and writing them down changes nothing else.
* `Visitor.Makes.traversal`: the calls are nested, sites are entered in pre-order and left in post-order, and
  those are entered that have no site above them at which the answer was not to go on.
* `Visitor.Makes.events`: with a decision by node, the calls are the events of `Node.walk`.
* `Visitor.faithful`: all this, for every visitor, tree and state.
-/

namespace Stopwatch

universe u

/-! ## Calls -/

/-- What a visitor is told: a site is entered, with the answer it gave, or left. -/
inductive Call where
  | enter (s : Site) (answer : Bool)
  | leave (s : Site)

namespace Call

/-- The site that a call enters. -/
def entered? : Call → Option Site
  | enter s _ => some s
  | leave _ => none

/-- The site that a call leaves. -/
def left? : Call → Option Site
  | enter _ _ => none
  | leave s => some s

/-- The sites entered, in order. -/
def entered (calls : List Call) : List Site := calls.filterMap entered?

/-- The sites left, in order. -/
def left (calls : List Call) : List Site := calls.filterMap left?

/-- Every site that is entered is left, and the sites entered in between are left before it. -/
inductive Nested : List Call → Prop
  | nil : Nested []
  | around {s : Site} {answer : Bool} {inner rest : List Call} (hinner : Nested inner)
      (hrest : Nested rest) : Nested (enter s answer :: (inner ++ leave s :: rest))

/-- The answers are those of `descend`. -/
def AnsweredBy (descend : Site → Bool) (calls : List Call) : Prop :=
  ∀ s answer, enter s answer ∈ calls → answer = descend s

/-- The event of a walk that a call is. -/
def event : Call → Event
  | enter s _ => .enter s.node
  | leave s => .leave s.node

variable {s : Site} {answer : Bool} {inner rest calls : List Call}

theorem entered_around :
    entered (enter s answer :: (inner ++ leave s :: rest)) = s :: (entered inner ++ entered rest) := by
  show s :: (inner ++ leave s :: rest).filterMap entered? = _
  rw [List.filterMap_append]
  rfl

theorem left_around :
    left (enter s answer :: (inner ++ leave s :: rest)) = left inner ++ s :: left rest := by
  show (inner ++ leave s :: rest).filterMap left? = _
  rw [List.filterMap_append]
  rfl

/-- The sites left are the sites entered. -/
theorem Nested.perm (h : Nested calls) : (left calls).Perm (entered calls) := by
  induction h with
  | nil => exact .nil
  | @around s answer inner rest _ _ ihinner ihrest =>
    rw [entered_around, left_around]
    exact List.perm_middle.trans ((ihinner.append ihrest).cons s)

theorem answeredBy_around {descend : Site → Bool} :
    AnsweredBy descend (enter s answer :: (inner ++ leave s :: rest)) ↔
      answer = descend s ∧ AnsweredBy descend inner ∧ AnsweredBy descend rest := by
  unfold AnsweredBy
  constructor
  · intro h
    refine ⟨h s answer (by simp), ?_, ?_⟩
    · intro t b ht
      exact h t b (by simp [ht])
    · intro t b ht
      exact h t b (by simp [ht])
  · rintro ⟨hs, hinner, hrest⟩ t b ht
    simp only [List.mem_cons, List.mem_append, enter.injEq, reduceCtorEq, false_or] at ht
    rcases ht with ⟨rfl, rfl⟩ | ht | ht
    · exact hs
    · exact hinner t b ht
    · exact hrest t b ht

/-- Where no site is entered twice, the answers are those of a decision by site. -/
theorem exists_answeredBy (h : (entered calls).Nodup) : ∃ descend, AnsweredBy descend calls := by
  classical
  have hne : calls.Pairwise fun a b => ∀ x ∈ a.entered?, ∀ y ∈ b.entered?, x ≠ y :=
    List.pairwise_filterMap.mp h
  refine ⟨fun s => decide (enter s true ∈ calls), ?_⟩
  intro s answer hs
  cases answer with
  | true => simp [hs]
  | false =>
    refine (decide_eq_false fun htrue => ?_).symm
    have hsymm : Std.Symm fun a b : Call => ∀ x ∈ a.entered?, ∀ y ∈ b.entered?, x ≠ y :=
      ⟨fun a b hab x hx y hy => (hab y hy x hx).symm⟩
    exact hne.forall hs htrue (by simp) s rfl s rfl rfl

end Call

/-! ## The calls of a visit -/

/-- The sites to go through after the answer at `s`. -/
def Site.inner (s : Site) (answer : Bool) : List Site := if answer then s.children else []

theorem Site.mem_children_of_mem_inner {s c : Site} {answer : Bool} (h : c ∈ s.inner answer) :
    c ∈ s.children := by
  cases answer with
  | true => exact h
  | false => cases h

theorem Site.exists_route_of_mem_inner {s c : Site} {answer : Bool} (h : c ∈ s.inner answer) :
    ∃ e, c.route = s.route ++ [e] := by
  obtain ⟨e, -, hroute⟩ := Site.mem_children.mp (Site.mem_children_of_mem_inner h)
  exact ⟨e, hroute⟩

theorem Site.pairwise_inner (s : Site) (answer : Bool) :
    (s.inner answer).Pairwise fun a b => a.route.LeftOf b.route := by
  cases answer with
  | true => exact s.pairwise_children
  | false => exact .nil

namespace Visitor

variable {σ : Type u}

/-- What a call does to the state. -/
def hear (v : Visitor σ) (state : σ) : Call → σ
  | .enter s _ => (v.enter s state).2
  | .leave s => v.leave s state

/-- The same visitor, which also writes its calls down. -/
def traced (v : Visitor σ) : Visitor (σ × List Call) where
  enter s state :=
    let entered := v.enter s state.1
    (entered.1, entered.2, state.2 ++ [.enter s entered.1])
  leave s state := (v.leave s state.1, state.2 ++ [.leave s])

/-- The calls of a visit to the whole of a tree. -/
def calls (v : Visitor σ) (root : Node) (state : σ) : List Call :=
  (v.traced.visit root.root (state, [])).2

/-- The visitor decides by the site whether to go on. -/
def Decides (v : Visitor σ) (descend : Site → Bool) : Prop :=
  ∀ s state, (v.enter s state).1 = descend s

/-- The visits to sites, one after another, make the calls `calls` and take the state to `state'`. -/
inductive Makes (v : Visitor σ) : List Site → σ → List Call → σ → Prop
  | nil (state : σ) : Makes v [] state [] state
  | visit {s : Site} {ss : List Site} {state mid state' : σ} {inner rest : List Call}
      (hinner : Makes v (s.inner (v.enter s state).1) (v.enter s state).2 inner mid)
      (hrest : Makes v ss (v.leave s mid) rest state') :
      Makes v (s :: ss) state (.enter s (v.enter s state).1 :: (inner ++ .leave s :: rest)) state'

variable {v : Visitor σ} {ss : List Site} {state state' : σ} {calls : List Call}

theorem visit_eq_inner (v : Visitor σ) (s : Site) (state : σ) :
    v.visit s state = v.leave s
      ((s.inner (v.enter s state).1).foldl (fun state c => v.visit c state) (v.enter s state).2) := by
  rw [visit_eq, Site.inner]
  split <;> rfl

/-- A visit to the site makes calls, in front of those of the visits that follow it, and the traced visitor
writes them down and changes nothing else. -/
def Writes (v : Visitor σ) (s : Site) : Prop :=
  ∀ (state : σ) (log : List Call), ∃ calls,
    v.traced.visit s (state, log) = (v.visit s state, log ++ calls) ∧
    ∀ {ss state' rest}, v.Makes ss (v.visit s state) rest state' →
      v.Makes (s :: ss) state (calls ++ rest) state'

theorem exists_makes_of_writes (v : Visitor σ) (ss : List Site) (hss : ∀ s ∈ ss, v.Writes s) :
    ∀ (state : σ) (log : List Call), ∃ calls,
      ss.foldl (fun state s => v.traced.visit s state) (state, log) =
        (ss.foldl (fun state s => v.visit s state) state, log ++ calls) ∧
      v.Makes ss state calls (ss.foldl (fun state s => v.visit s state) state) := by
  induction ss with
  | nil =>
    intro state log
    exact ⟨[], by simp, .nil state⟩
  | cons s ss ih =>
    intro state log
    obtain ⟨first, hfirst, hmakes⟩ := hss s List.mem_cons_self state log
    obtain ⟨others, hothers, hrest⟩ :=
      ih (fun t ht => hss t (List.mem_cons_of_mem s ht)) (v.visit s state) (log ++ first)
    refine ⟨first ++ others, ?_, hmakes hrest⟩
    rw [List.foldl_cons, List.foldl_cons, hfirst, hothers, List.append_assoc]

/-- **Every visit writes down the calls it makes.** -/
theorem writes (v : Visitor σ) (s : Site) : v.Writes s := by
  induction s using Site.induction with
  | h s ih =>
    intro state log
    obtain ⟨inner, htraced, hinner⟩ := v.exists_makes_of_writes (s.inner (v.enter s state).1)
      (fun c hc => ih c (Site.mem_children_of_mem_inner hc)) (v.enter s state).2
      (log ++ [.enter s (v.enter s state).1])
    refine ⟨.enter s (v.enter s state).1 :: (inner ++ [.leave s]), ?_, ?_⟩
    · rw [visit_eq_inner v.traced, visit_eq_inner v]
      simp only [traced] at htraced ⊢
      rw [htraced]
      simp
    · intro ss state' rest hrest
      have hcalls : Call.enter s (v.enter s state).1 :: (inner ++ [.leave s]) ++ rest =
          .enter s (v.enter s state).1 :: (inner ++ .leave s :: rest) := by simp
      rw [visit_eq_inner] at hrest
      rw [hcalls]
      exact .visit hinner hrest

/-- A visit to a whole tree makes the calls that are written down. -/
theorem makes_calls (v : Visitor σ) (root : Node) (state : σ) :
    v.Makes [root.root] state (v.calls root state) (v.visit root.root state) := by
  obtain ⟨calls, htraced, hmakes⟩ := v.writes root.root state []
  have h := hmakes (Makes.nil (v.visit root.root state))
  rw [List.append_nil] at h
  rwa [Visitor.calls, htraced, List.nil_append]

namespace Makes

theorem nested (h : v.Makes ss state calls state') : Call.Nested calls := by
  induction h with
  | nil => exact .nil
  | visit _ _ ihinner ihrest => exact .around ihinner ihrest

/-- The state is what the calls, in their order, make of it. -/
theorem replay (h : v.Makes ss state calls state') : calls.foldl v.hear state = state' := by
  induction h with
  | nil => rfl
  | visit _ _ ihinner ihrest =>
    rw [List.foldl_cons, List.foldl_append, List.foldl_cons, hear, ihinner, hear, ihrest]

theorem answeredBy {descend : Site → Bool} (hv : v.Decides descend)
    (h : v.Makes ss state calls state') : Call.AnsweredBy descend calls := by
  induction h with
  | nil => intro s answer hs; cases hs
  | visit _ _ ihinner ihrest =>
    exact Call.answeredBy_around.mpr ⟨hv _ _, ihinner, ihrest⟩

/-- Exactly the sites that can be reached are entered. -/
theorem mem_entered_iff {descend : Site → Bool} (h : v.Makes ss state calls state')
    (hanswers : Call.AnsweredBy descend calls) (x : Site) :
    x ∈ Call.entered calls ↔ ∃ s ∈ ss, s.Reaches descend x := by
  induction h with
  | nil => simp [Call.entered]
  | @visit s ss state mid state' inner rest _ _ ihinner ihrest =>
    obtain ⟨hs, hinner, hrest⟩ := Call.answeredBy_around.mp hanswers
    -- the sites gone through next are those directly below, or none
    have hbelow : (∃ c ∈ s.inner (v.enter s state).1, c.Reaches descend x) ↔
        descend s = true ∧ ∃ c ∈ s.children, c.Reaches descend x := by
      rw [Site.inner, hs]
      split <;> simp_all
    rw [Call.entered_around, List.mem_cons, List.mem_append, ihinner hinner, ihrest hrest, hbelow,
      List.exists_mem_cons_iff, Site.reaches_iff, or_assoc]

/-- Whatever is entered lies at or below one of the sites visited. -/
theorem exists_route_above (h : v.Makes ss state calls state') :
    ∀ x ∈ Call.entered calls, ∃ s ∈ ss, s.route <+: x.route := by
  induction h with
  | nil => intro x hx; cases hx
  | @visit s ss state mid state' inner rest _ _ ihinner ihrest =>
    intro x hx
    rw [Call.entered_around] at hx
    rcases List.mem_cons.mp hx with rfl | hx
    · exact ⟨x, List.mem_cons_self, List.prefix_rfl⟩
    · rcases List.mem_append.mp hx with hx | hx
      · obtain ⟨c, hc, hbelow⟩ := ihinner x hx
        obtain ⟨e, hroute⟩ := Site.exists_route_of_mem_inner hc
        refine ⟨s, List.mem_cons_self, List.IsPrefix.trans ?_ hbelow⟩
        exact hroute ▸ List.prefix_append s.route [e]
      · obtain ⟨t, ht, hbelow⟩ := ihrest x hx
        exact ⟨t, List.mem_cons_of_mem s ht, hbelow⟩

/-- What is entered between a site and its leaving is below the site. -/
theorem above_of_mem {s x : Site} {answer : Bool} (h : v.Makes (s.inner answer) state calls state')
    (hx : x ∈ Call.entered calls) : s.route.Above x.route := by
  obtain ⟨c, hc, back, hback⟩ := h.exists_route_above x hx
  obtain ⟨e, hroute⟩ := Site.exists_route_of_mem_inner hc
  exact ⟨e, back, by rw [← hback, hroute, List.append_assoc]; rfl⟩

/-- What is entered at or below a site is left of what is entered at or below the sites to its right. -/
theorem leftOf_of_mem {s x y : Site} (h : v.Makes ss state calls state')
    (hs : ∀ t ∈ ss, s.route.LeftOf t.route) (hx : s.route <+: x.route)
    (hy : y ∈ Call.entered calls) : x.route.LeftOf y.route := by
  obtain ⟨t, ht, hty⟩ := h.exists_route_above y hy
  exact (hs t ht).extend hx hty

/-- Sites that stand from left to right are entered in pre-order, with all that is below them. -/
theorem preorder (h : v.Makes ss state calls state')
    (hss : ss.Pairwise fun a b => a.route.LeftOf b.route) :
    (Call.entered calls).Pairwise fun x y => x.route.PreorderLt y.route := by
  induction h with
  | nil => exact .nil
  | @visit s ss state mid state' inner rest hinner hrest ihinner ihrest =>
    obtain ⟨hs, hss⟩ := List.pairwise_cons.mp hss
    rw [Call.entered_around]
    refine List.pairwise_cons.mpr ⟨?_, List.pairwise_append.mpr
      ⟨ihinner (Site.pairwise_inner s _), ihrest hss, ?_⟩⟩
    · intro x hx
      rcases List.mem_append.mp hx with hx | hx
      · exact .inl (hinner.above_of_mem hx)
      · exact .inr (hrest.leftOf_of_mem hs List.prefix_rfl hx)
    · intro x hx y hy
      exact .inr (hrest.leftOf_of_mem hs (hinner.above_of_mem hx).isPrefix hy)

/-- Sites that stand from left to right are left in post-order, with all that is below them. -/
theorem postorder (h : v.Makes ss state calls state')
    (hss : ss.Pairwise fun a b => a.route.LeftOf b.route) :
    (Call.left calls).Pairwise fun x y => x.route.PostorderLt y.route := by
  induction h with
  | nil => exact .nil
  | @visit s ss state mid state' inner rest hinner hrest ihinner ihrest =>
    obtain ⟨hs, hss⟩ := List.pairwise_cons.mp hss
    have habove : ∀ x ∈ Call.left inner, s.route.Above x.route := fun x hx =>
      hinner.above_of_mem (hinner.nested.perm.mem_iff.mp hx)
    -- what is left later on is to the right of the site, and so of all below it
    have hright : ∀ x : Site, s.route <+: x.route → ∀ y ∈ Call.left rest, x.route.LeftOf y.route :=
      fun x hx y hy => hrest.leftOf_of_mem hs hx (hrest.nested.perm.mem_iff.mp hy)
    rw [Call.left_around]
    refine List.pairwise_append.mpr ⟨ihinner (Site.pairwise_inner s _), List.pairwise_cons.mpr
      ⟨fun y hy => .inr (hright s List.prefix_rfl y hy), ihrest hss⟩, ?_⟩
    intro x hx y hy
    rcases List.mem_cons.mp hy with rfl | hy
    · exact .inl (habove x hx)
    · exact .inr (hright x (habove x hx).isPrefix y hy)

/-- With a decision by node, the calls are the events of a walk. -/
theorem events {descend : Node → Bool} (h : v.Makes ss state calls state')
    (hanswers : Call.AnsweredBy (fun s => descend s.node) calls) :
    calls.map Call.event = (ss.map Site.node).flatMap (Node.walk descend) := by
  induction h with
  | nil => rfl
  | @visit s ss state mid state' inner rest _ _ ihinner ihrest =>
    obtain ⟨hs, hinner, hrest⟩ := Call.answeredBy_around.mp hanswers
    have hbelow : ((s.inner (v.enter s state).1).map Site.node).flatMap (Node.walk descend) =
        if descend s.node then s.node.children.flatMap (Node.walk descend) else [] := by
      rw [Site.inner, hs]
      split
      · rw [Site.map_node_children]
      · rfl
    rw [List.map_cons, List.map_cons, List.flatMap_cons, Node.walk_eq, Event.around, ← hbelow,
      ← ihinner hinner, ← ihrest hrest]
    simp [Call.event]

end Makes

end Visitor

/-! ## Traversals -/

/-- The calls are those of a depth-first traversal that does not go below the sites where `descend` is
false. -/
structure Traversal (root : Node) (descend : Site → Bool) (calls : List Call) : Prop where
  /-- What is entered is left, inner sites before outer ones. -/
  nested : Call.Nested calls
  /-- The sites entered are those below none where the visit does not go on. -/
  mem_entered : ∀ x, x ∈ Call.entered calls ↔
    root.Holds x ∧ ∀ y, root.Holds y → y.route.Above x.route → descend y = true
  /-- The sites left are the same. -/
  mem_left : ∀ x, x ∈ Call.left calls ↔
    root.Holds x ∧ ∀ y, root.Holds y → y.route.Above x.route → descend y = true
  /-- No site is entered twice. -/
  entered_once : (Call.entered calls).Nodup
  /-- No site is left twice. -/
  left_once : (Call.left calls).Nodup
  /-- Sites are entered in pre-order, those below one site in the order of its fields. -/
  preorder : (Call.entered calls).Pairwise fun x y => x.route.PreorderLt y.route
  /-- Sites are left in post-order, those below one site in the order of its fields. -/
  postorder : (Call.left calls).Pairwise fun x y => x.route.PostorderLt y.route

namespace Visitor

variable {σ : Type u} {v : Visitor σ} {root : Node} {state state' : σ} {calls : List Call}

theorem Makes.nodup_entered (h : v.Makes [root.root] state calls state') :
    (Call.entered calls).Nodup :=
  (h.preorder (List.pairwise_singleton _ _)).imp fun hlt heq => hlt.ne (congrArg Site.route heq)

/-- **The calls of a visit are a traversal.** -/
theorem Makes.traversal {descend : Site → Bool} (h : v.Makes [root.root] state calls state')
    (hanswers : Call.AnsweredBy descend calls) : Traversal root descend calls := by
  have hmem (x : Site) : x ∈ Call.entered calls ↔
      root.Holds x ∧ ∀ y, root.Holds y → y.route.Above x.route → descend y = true := by
    rw [h.mem_entered_iff hanswers, ← Site.reaches_root_iff]
    simp
  exact {
    nested := h.nested
    mem_entered := hmem
    mem_left := fun x => h.nested.perm.mem_iff.trans (hmem x)
    entered_once := h.nodup_entered
    left_once := h.nested.perm.nodup_iff.mpr h.nodup_entered
    preorder := h.preorder (List.pairwise_singleton _ _)
    postorder := h.postorder (List.pairwise_singleton _ _) }

/-- What there is to say of the visit to a tree, seen through its calls. -/
structure Faithful (v : Visitor σ) (root : Node) (state : σ) : Prop where
  /-- Writing the calls down changes nothing else. -/
  traced : (v.traced.visit root.root (state, [])).1 = v.visit root.root state
  /-- The calls are all that happens: in their order they make the state what the visit makes it. -/
  replay : (v.calls root state).foldl v.hear state = v.visit root.root state
  /-- With any decision by site where not to go on, the calls are the traversal for that decision. -/
  decided : ∀ descend, v.Decides descend → Traversal root descend (v.calls root state)
  /-- Whatever the visitor goes by, there is such a decision, namely the answers it gave. -/
  answered : ∃ descend, Call.AnsweredBy descend (v.calls root state) ∧
    Traversal root descend (v.calls root state)
  /-- With a decision by node, the calls are the events of a walk. -/
  events : ∀ descend : Node → Bool, (v.Decides fun s => descend s.node) →
    (v.calls root state).map Call.event = root.walk descend

theorem faithful (v : Visitor σ) (root : Node) (state : σ) : v.Faithful root state := by
  have hmakes := v.makes_calls root state
  obtain ⟨calls, htraced, -⟩ := v.writes root.root state []
  obtain ⟨descend, hanswers⟩ := Call.exists_answeredBy hmakes.nodup_entered
  exact {
    traced := congrArg Prod.fst htraced
    replay := hmakes.replay
    decided := fun d hv => hmakes.traversal (hmakes.answeredBy hv)
    answered := ⟨descend, hanswers, hmakes.traversal hanswers⟩
    events := fun d hv => by
      rw [hmakes.events (hmakes.answeredBy hv)]
      exact List.append_nil _ }

end Visitor

end Stopwatch
