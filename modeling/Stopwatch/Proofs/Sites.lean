import Mathlib
import Stopwatch.Syntax.Visit

/-!
# Sites of a tree

A route goes from node to node, and a step of it is an edge: a field and an entry of the field. So the order
in which the fields are declared, and the entries within a field, orders the edges of a node
(`Edge.Before`), and the edges order the routes. A route is above another if it is a proper part of its
front, and left of it if they part at two edges of which its own is the first. The routes above are all that
pre-order and post-order disagree on: `Route.PreorderLt` puts them first, `Route.PostorderLt` last.

Results:
* `Site.mem_children`, `Site.pairwise_children`: the sites below a site are the ends of its edges, from left
  to right.
* `Site.reaches_root_iff`: what can be reached from the root, without passing below a site where nothing is
  wanted, is what has no such site above it.
-/

namespace Stopwatch

/-! ## Routes -/

/-- Of two edges of a node, the one through the field that is declared first comes first, and within one
field the one to the earlier entry. -/
def Edge.Before (e f : Edge) : Prop := e.field < f.field ∨ e.field = f.field ∧ e.index < f.index

namespace Route

/-- The route `q` goes on where `p` ends. -/
def Above (p q : Route) : Prop := ∃ e r, q = p ++ e :: r

/-- The routes part, and `p` takes the first of the two edges. -/
def LeftOf (p q : Route) : Prop :=
  ∃ front e f p' q', p = front ++ e :: p' ∧ q = front ++ f :: q' ∧ e.Before f

/-- Pre-order: a node comes before all that is below it. -/
def PreorderLt (p q : Route) : Prop := p.Above q ∨ p.LeftOf q

/-- Post-order: a node comes after all that is below it. -/
def PostorderLt (p q : Route) : Prop := q.Above p ∨ p.LeftOf q

variable {p q : Route}

/-- What is at or below a node is left of what is at or below a node to its right. -/
theorem LeftOf.extend {p' q' : Route} (h : p.LeftOf q) (hp : p <+: p') (hq : q <+: q') :
    p'.LeftOf q' := by
  obtain ⟨r, rfl⟩ := hp
  obtain ⟨s, rfl⟩ := hq
  obtain ⟨front, e, f, p', q', rfl, rfl, hef⟩ := h
  exact ⟨front, e, f, p' ++ r, q' ++ s, by simp, by simp, hef⟩

theorem Above.isPrefix (h : p.Above q) : p <+: q := by
  obtain ⟨e, r, rfl⟩ := h
  exact List.prefix_append p (e :: r)

theorem leftOf_of_before {e f : Edge} (h : e.Before f) (p : Route) : LeftOf (p ++ [e]) (p ++ [f]) :=
  ⟨p, e, f, [], [], rfl, rfl, h⟩

theorem not_above_self (p : Route) : ¬ p.Above p := by
  rintro ⟨e, r, h⟩
  have hlen := congrArg List.length h
  simp at hlen

theorem not_leftOf_self (p : Route) : ¬ p.LeftOf p := by
  rintro ⟨front, e, f, p', q', rfl, h, hef⟩
  obtain ⟨rfl, -⟩ := List.cons.inj (List.append_cancel_left h)
  unfold Edge.Before at hef
  omega

theorem PreorderLt.ne (h : p.PreorderLt q) : p ≠ q := by
  rintro rfl
  rcases h with h | h
  · exact not_above_self p h
  · exact not_leftOf_self p h

end Route

/-! ## The node at the end of a route -/

/-- The node at the end of an edge: the entry of the field. -/
def Node.child? (n : Node) (e : Edge) : Option Node :=
  n.fields[e.field]?.bind fun field => field.nodes[e.index]?

/-- The node at the end of a route that starts at `n`. -/
def Node.at? : Node → Route → Option Node
  | n, [] => some n
  | n, e :: route => (n.child? e).bind fun c => c.at? route

/-- The site is one of the tree with the root `n`. -/
def Node.Holds (n : Node) (s : Site) : Prop := n.at? s.route = some s.node

theorem Node.at?_cons (n : Node) (e : Edge) (route : Route) :
    n.at? (e :: route) = (n.child? e).bind fun c => c.at? route := rfl

/-! ## The sites below a site -/

namespace Site

variable {s c x : Site}

theorem mem_children :
    c ∈ s.children ↔ ∃ e, s.node.child? e = some c.node ∧ c.route = s.route ++ [e] := by
  obtain ⟨route, node⟩ := c
  constructor
  · intro h
    obtain ⟨⟨field, i⟩, hfield, h⟩ := List.mem_flatMap.mp h
    obtain ⟨⟨n, j⟩, hn, h⟩ := List.mem_map.mp h
    obtain ⟨rfl, rfl⟩ := Site.mk.inj h
    refine ⟨⟨i, j⟩, ?_, rfl⟩
    rw [Node.child?, List.mem_zipIdx_iff_getElem?.mp hfield]
    exact List.mem_zipIdx_iff_getElem?.mp hn
  · rintro ⟨⟨i, j⟩, hchild, hroute⟩
    obtain ⟨field, hfield, hn⟩ := Option.bind_eq_some_iff.mp hchild
    refine List.mem_flatMap.mpr ⟨(field, i), List.mem_zipIdx_iff_getElem?.mpr hfield, ?_⟩
    refine List.mem_map.mpr ⟨(node, j), List.mem_zipIdx_iff_getElem?.mpr hn, ?_⟩
    exact congrArg (Site.mk · node) hroute.symm

theorem pairwise_zipIdx {α : Type} (l : List α) : l.zipIdx.Pairwise fun a b => a.2 < b.2 := by
  have hrange : (l.zipIdx.map Prod.snd).Pairwise (· < ·) := by
    rw [List.zipIdx_map_snd]
    exact List.pairwise_lt_range'
  exact List.pairwise_map.mp hrange

/-- The sites below a site stand from left to right. -/
theorem pairwise_children (s : Site) : s.children.Pairwise fun a b => a.route.LeftOf b.route := by
  refine List.pairwise_flatMap.mpr ⟨?_, ?_⟩
  · rintro ⟨field, i⟩ -
    refine List.pairwise_map.mpr ((pairwise_zipIdx field.nodes).imp ?_)
    intro a b hab
    have hbefore : Edge.Before ⟨i, a.2⟩ ⟨i, b.2⟩ := .inr ⟨rfl, hab⟩
    exact Route.leftOf_of_before hbefore s.route
  · refine (pairwise_zipIdx s.node.fields).imp ?_
    rintro ⟨field, i⟩ ⟨field', i'⟩ hlt a ha b hb
    obtain ⟨⟨n, j⟩, -, rfl⟩ := List.mem_map.mp ha
    obtain ⟨⟨n', j'⟩, -, rfl⟩ := List.mem_map.mp hb
    exact Route.leftOf_of_before (.inl hlt) s.route

/-- What holds of a site as soon as it holds of those directly below it holds of every site. -/
theorem induction {P : Site → Prop} (h : ∀ s : Site, (∀ c ∈ s.children, P c) → P s) (s : Site) : P s :=
  h s fun c _ => induction h c
termination_by sizeOf s.node
decreasing_by exact Site.sizeOf_lt_of_mem_children ‹_›

/-! ## Reaching a site -/

/-- From the first site the second can be reached, downwards and past sites where `descend` wants to go
on. -/
inductive Reaches (descend : Site → Bool) : Site → Site → Prop
  | here (s : Site) : Reaches descend s s
  | down {s c x : Site} (hs : descend s = true) (hc : c ∈ s.children) (hx : Reaches descend c x) :
      Reaches descend s x

variable {descend : Site → Bool}

theorem reaches_iff :
    s.Reaches descend x ↔ x = s ∨ descend s = true ∧ ∃ c ∈ s.children, c.Reaches descend x := by
  constructor
  · intro h
    cases h with
    | here => exact .inl rfl
    | down hs hc hx => exact .inr ⟨hs, _, hc, hx⟩
  · rintro (rfl | ⟨hs, c, hc, hx⟩)
    · exact .here x
    · exact .down hs hc hx

/-- The way to a site that is reached. -/
theorem Reaches.exists_route (h : s.Reaches descend x) :
    ∃ route, x.route = s.route ++ route ∧ s.node.at? route = some x.node ∧
      ∀ front e back, route = front ++ e :: back → ∀ m, s.node.at? front = some m →
        descend ⟨s.route ++ front, m⟩ = true := by
  induction h with
  | here s => exact ⟨[], by simp, rfl, by simp⟩
  | @down s c x hs hc _ ih =>
    obtain ⟨e, hchild, hroute⟩ := mem_children.mp hc
    obtain ⟨route, hx, hat, hwanted⟩ := ih
    refine ⟨e :: route, by rw [hx, hroute, List.append_assoc]; rfl, ?_, ?_⟩
    · rw [Node.at?_cons, hchild]
      exact hat
    · intro front f back hsplit m hm
      cases front with
      | nil =>
        obtain rfl : s.node = m := Option.some.inj hm
        rw [List.append_nil]
        exact hs
      | cons e' front =>
        obtain ⟨rfl, hrest⟩ := List.cons.inj hsplit
        rw [Node.at?_cons, hchild] at hm
        have hgoes := hwanted front f back hrest m hm
        rwa [hroute, List.append_assoc] at hgoes

/-- The converse, by induction on the way. -/
theorem reaches_of_at? (route : Route) (hroute : x.route = s.route ++ route)
    (hat : s.node.at? route = some x.node)
    (hwanted : ∀ front e back, route = front ++ e :: back → ∀ m, s.node.at? front = some m →
      descend ⟨s.route ++ front, m⟩ = true) : s.Reaches descend x := by
  induction route generalizing s with
  | nil =>
    obtain ⟨r, n⟩ := s
    obtain ⟨r', n'⟩ := x
    obtain rfl : n = n' := Option.some.inj hat
    obtain rfl : r' = r := hroute.trans (List.append_nil r)
    exact .here _
  | cons e route ih =>
    obtain ⟨c, hc, hat⟩ := Option.bind_eq_some_iff.mp hat
    have hs : descend s = true := by
      have hgoes := hwanted [] e route rfl s.node rfl
      rwa [List.append_nil] at hgoes
    refine .down hs (c := ⟨s.route ++ [e], c⟩) (mem_children.mpr ⟨e, hc, rfl⟩) (ih ?_ hat ?_)
    · rw [hroute, List.append_assoc]
      rfl
    · rintro front f back rfl m hm
      rw [List.append_assoc]
      exact hwanted (e :: front) f back rfl m (by rw [Node.at?_cons, hc]; exact hm)

/-- **From the root a site can be reached just if all sites above it are passed.** -/
theorem reaches_root_iff {root : Node} :
    root.root.Reaches descend x ↔
      root.Holds x ∧ ∀ y, root.Holds y → y.route.Above x.route → descend y = true := by
  constructor
  · intro h
    obtain ⟨route, hx, hat, hwanted⟩ := h.exists_route
    obtain rfl : x.route = route := hx
    refine ⟨hat, fun y hy habove => ?_⟩
    obtain ⟨e, back, hsplit⟩ := habove
    exact hwanted y.route e back hsplit y.node hy
  · rintro ⟨hx, hwanted⟩
    refine reaches_of_at? x.route rfl hx fun front e back hsplit m hm => ?_
    exact hwanted ⟨front, m⟩ hm ⟨e, back, hsplit⟩

end Site

end Stopwatch
