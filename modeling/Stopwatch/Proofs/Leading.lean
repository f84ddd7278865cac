import Mathlib
import Stopwatch.Proofs.Locations

/-!
# Where paths lead

`Entry.Leads` follows the names of a path one by one, links included, and counts the links. It is what
`Disk.locate` computes within its limit (`locateFrom_iff`), and it is cut where the path is cut
(`leads_append`).

* `Disk.resolve_of_locate`: a path that leads to an entry resolves to the location of that entry. A link
  that came up again inside its own target would cost fewer links there than it costs itself, and chains
  of different links are no longer than the tree has entries.
* `Entry.Leads.put`, `Entry.Leads.of_put`: what a new file changes for the paths of a disk.
-/

namespace Stopwatch

/-- A name that says nothing about where it is read. -/
def Path.Plain (n : String) : Prop := n ≠ "." ∧ n ≠ ".."

/-- Following `names` from `place` leads to `found`, through `k` links. -/
inductive Entry.Leads (root : Entry) : Location → List String → Location → Nat → Prop
  | done (place : Location) : Leads root place [] place 0
  | stay {place found : Location} {n : String} {es : Listing} {rest : List String} {k : Nat}
      (hn : n = ".") (hdir : root.at? place = some (.dir es)) (h : Leads root place rest found k) :
      Leads root place (n :: rest) found k
  | up {place found : Location} {n : String} {es : Listing} {rest : List String} {k : Nat}
      (hn : n = "..") (hdir : root.at? place = some (.dir es))
      (h : Leads root place.dropLast rest found k) : Leads root place (n :: rest) found k
  | down {place found : Location} {n : String} {e : Entry} {rest : List String} {k : Nat}
      (hn : Path.Plain n) (he : root.at? (place ++ [n]) = some e) (hlink : e.isLink = false)
      (h : Leads root (place ++ [n]) rest found k) : Leads root place (n :: rest) found k
  | through {place found : Location} {n target : String} {rest : List String} {k : Nat}
      (hn : Path.Plain n) (he : root.at? (place ++ [n]) = some (.link target))
      (h : Leads root (Path.linkStart place target) (Path.linkNames target ++ rest) found k) :
      Leads root place (n :: rest) found (k + 1)

namespace Entry

variable {root : Entry} {place found : Location} {names : List String} {k : Nat}

/-! ## Following -/

theorem follow_stay {es : Listing} (hdir : root.at? place = some (.dir es)) (rest : List String) :
    root.follow place ("." :: rest) = root.follow place rest := by
  simp [follow, hdir]

theorem follow_up {es : Listing} (hdir : root.at? place = some (.dir es)) (rest : List String) :
    root.follow place (".." :: rest) = root.follow place.dropLast rest := by
  simp [follow, hdir]

theorem follow_down {n : String} {e : Entry} (hn : Path.Plain n)
    (he : root.at? (place ++ [n]) = some e) (hlink : e.isLink = false) (rest : List String) :
    root.follow place (n :: rest) = root.follow (place ++ [n]) rest := by
  obtain ⟨es, hdir⟩ := exists_dir_of_at?_concat he
  rw [at?_concat hdir] at he
  rw [follow]
  simp only [hdir, hn.1, hn.2, if_false, he]
  cases e with
  | link => simp [isLink] at hlink
  | file => rfl
  | dir => rfl

theorem follow_through {n target : String} (hn : Path.Plain n)
    (he : root.at? (place ++ [n]) = some (.link target)) (rest : List String) :
    root.follow place (n :: rest) = .link place n target rest := by
  obtain ⟨es, hdir⟩ := exists_dir_of_at?_concat he
  rw [at?_concat hdir] at he
  simp [follow, hdir, hn.1, hn.2, he]

theorem leads_of_follow_arrived (h : root.follow place names = .arrived found) :
    root.Leads place names found 0 := by
  fun_induction follow root place names with
  | case1 place =>
    obtain rfl := Stop.arrived.inj h
    exact .done place
  | case2 place rest es hdir ih => exact .stay rfl hdir (ih h)
  | case3 place rest es hdir _ ih => exact .up rfl hdir (ih h)
  | case4 => cases h
  | case5 place n rest es hdir hn hn' e hlink he ih =>
    refine .down ⟨hn, hn'⟩ ((at?_concat hdir n).trans he) ?_ (ih h)
    cases e with
    | link target => exact absurd rfl (hlink target)
    | file => rfl
    | dir => rfl
  | case6 => cases h
  | case7 => cases h
  | case8 => cases h

theorem leads_of_follow_link {holder : Location} {n target : String} {rest : List String}
    (h : root.follow place names = .link holder n target rest)
    (hrest : root.Leads (Path.linkStart holder target) (Path.linkNames target ++ rest) found k) :
    root.Leads place names found (k + 1) := by
  fun_induction follow root place names with
  | case1 => cases h
  | case2 place rest es hdir ih => exact .stay rfl hdir (ih h)
  | case3 place rest es hdir _ ih => exact .up rfl hdir (ih h)
  | case4 place m more es hdir hm hm' t he =>
    cases h
    exact .through ⟨hm, hm'⟩ ((at?_concat hdir n).trans he) hrest
  | case5 place m rest es hdir hm hm' e hlink he ih =>
    refine .down ⟨hm, hm'⟩ ((at?_concat hdir m).trans he) ?_ (ih h)
    cases e with
    | link target => exact absurd rfl (hlink target)
    | file => rfl
    | dir => rfl
  | case6 => cases h
  | case7 => cases h
  | case8 => cases h

/-- Names that lead somewhere without links are used up on the way. -/
theorem follow_append (h : root.Leads place names found k) (hk : k = 0) (rest : List String) :
    root.follow place (names ++ rest) = root.follow found rest := by
  induction h with
  | done => rfl
  | stay hn hdir _ ih => rw [hn, List.cons_append, follow_stay hdir, ih hk]
  | up hn hdir _ ih => rw [hn, List.cons_append, follow_up hdir, ih hk]
  | down hn he hlink _ ih => rw [List.cons_append, follow_down hn he hlink, ih hk]
  | through => cases hk

end Entry

namespace Disk

variable {d : Disk} {place found : Location} {names : List String} {k links : Nat}

theorem locateFrom_congr {place' : Location} {names' : List String}
    (h : d.root.follow place names = d.root.follow place' names') (last : Bool) (links : Nat) :
    d.locateFrom last links place names = d.locateFrom last links place' names' := by
  unfold locateFrom
  rw [h]

theorem locateFrom_of_leads (h : d.root.Leads place names found k) (hk : k ≤ links) :
    d.locateFrom true links place names = .ok found := by
  induction h generalizing links with
  | done place => cases links <;> rfl
  | stay hn hdir _ ih => rw [hn, locateFrom_congr (Entry.follow_stay hdir _), ih hk]
  | up hn hdir _ ih => rw [hn, locateFrom_congr (Entry.follow_up hdir _), ih hk]
  | down hn he hlink _ ih => rw [locateFrom_congr (Entry.follow_down hn he hlink _), ih hk]
  | through hn he _ ih =>
    obtain ⟨links, rfl⟩ := Nat.exists_eq_add_of_lt hk
    rw [show _ + links + 1 = (_ + links) + 1 from rfl, locateFrom, Entry.follow_through hn he]
    simpa using ih (Nat.le_add_right _ links)

theorem leads_of_locateFrom (h : d.locateFrom true links place names = .ok found) :
    ∃ k ≤ links, d.root.Leads place names found k := by
  induction links generalizing place names with
  | zero =>
    rw [locateFrom] at h
    split at h
    · next hfollow => exact ⟨0, le_refl 0, Entry.leads_of_follow_arrived (by rw [hfollow, Except.ok.inj h])⟩
    · cases h
    · simp at h
  | succ links ih =>
    rw [locateFrom] at h
    split at h
    · next hfollow =>
      exact ⟨0, Nat.zero_le _, Entry.leads_of_follow_arrived (by rw [hfollow, Except.ok.inj h])⟩
    · cases h
    · next hfollow =>
      simp only [Bool.not_true, Bool.and_false, Bool.false_eq_true, if_false] at h
      obtain ⟨k, hk, hleads⟩ := ih h
      exact ⟨k + 1, Nat.succ_le_succ hk, Entry.leads_of_follow_link hfollow hleads⟩

/-- **Finding a location is following names** through no more links than allowed. -/
theorem locateFrom_iff :
    d.locateFrom true links place names = .ok found ↔ ∃ k ≤ links, d.root.Leads place names found k :=
  ⟨leads_of_locateFrom, fun ⟨_, hk, h⟩ => locateFrom_of_leads h hk⟩

end Disk

namespace Entry

variable {root : Entry} {place found : Location} {names : List String} {k : Nat}

/-! ## Cutting paths -/

theorem Leads.append {mid : Location} {rest : List String} {j : Nat}
    (h : root.Leads place names mid k) (h' : root.Leads mid rest found j) :
    root.Leads place (names ++ rest) found (k + j) := by
  induction h with
  | done place => simpa using h'
  | stay hn hdir _ ih => exact .stay hn hdir (ih h')
  | up hn hdir _ ih => exact .up hn hdir (ih h')
  | down hn he hlink _ ih => exact .down hn he hlink (ih h')
  | through hn he _ ih =>
    rw [List.cons_append, Nat.add_right_comm]
    exact .through hn he (by rw [← List.append_assoc]; exact ih h')

/-- Where a path is cut, following it is cut. -/
theorem leads_append {front rest : List String} (h : root.Leads place (front ++ rest) found k) :
    ∃ mid i j, root.Leads place front mid i ∧ root.Leads mid rest found j ∧ i + j = k := by
  generalize hnames : front ++ rest = names at h
  induction h generalizing front with
  | done place =>
    obtain ⟨rfl, rfl⟩ := List.append_eq_nil_iff.mp hnames
    exact ⟨place, 0, 0, .done place, .done place, rfl⟩
  | @stay place found n es more k hn hdir h ih =>
    rcases List.append_eq_cons_iff.mp hnames with ⟨rfl, rfl⟩ | ⟨front, rfl, rfl⟩
    · exact ⟨place, 0, k, .done place, .stay hn hdir h, Nat.zero_add k⟩
    · obtain ⟨mid, i, j, hfront, hrest, rfl⟩ := ih rfl
      exact ⟨mid, i, j, .stay hn hdir hfront, hrest, rfl⟩
  | @up place found n es more k hn hdir h ih =>
    rcases List.append_eq_cons_iff.mp hnames with ⟨rfl, rfl⟩ | ⟨front, rfl, rfl⟩
    · exact ⟨place, 0, k, .done place, .up hn hdir h, Nat.zero_add k⟩
    · obtain ⟨mid, i, j, hfront, hrest, rfl⟩ := ih rfl
      exact ⟨mid, i, j, .up hn hdir hfront, hrest, rfl⟩
  | @down place found n e more k hn he hlink h ih =>
    rcases List.append_eq_cons_iff.mp hnames with ⟨rfl, rfl⟩ | ⟨front, rfl, rfl⟩
    · exact ⟨place, 0, k, .done place, .down hn he hlink h, Nat.zero_add k⟩
    · obtain ⟨mid, i, j, hfront, hrest, rfl⟩ := ih rfl
      exact ⟨mid, i, j, .down hn he hlink hfront, hrest, rfl⟩
  | @through place found n target more k hn he h ih =>
    rcases List.append_eq_cons_iff.mp hnames with ⟨rfl, rfl⟩ | ⟨front, rfl, rfl⟩
    · exact ⟨place, 0, k + 1, .done place, .through hn he h, Nat.zero_add _⟩
    · obtain ⟨mid, i, j, hfront, hrest, rfl⟩ := ih (List.append_assoc _ _ _)
      exact ⟨mid, i + 1, j, .through hn he hfront, hrest, Nat.add_right_comm i 1 j⟩

/-- A path leads to one place only, and through one number of links. -/
theorem Leads.unique {found' : Location} {k' : Nat} (h : root.Leads place names found k)
    (h' : root.Leads place names found' k') : found = found' ∧ k = k' := by
  induction h generalizing found' k' with
  | done place =>
    cases h'
    exact ⟨rfl, rfl⟩
  | stay hn hdir _ ih =>
    cases h' with
    | stay _ _ h' => exact ih h'
    | up hn' => exact absurd (hn.symm.trans hn') (by decide)
    | down hn' => exact absurd hn hn'.1
    | through hn' => exact absurd hn hn'.1
  | up hn hdir _ ih =>
    cases h' with
    | stay hn' => exact absurd (hn.symm.trans hn') (by decide)
    | up _ _ h' => exact ih h'
    | down hn' => exact absurd hn hn'.2
    | through hn' => exact absurd hn hn'.2
  | down hn he hlink _ ih =>
    cases h' with
    | stay hn' => exact absurd hn' hn.1
    | up hn' => exact absurd hn' hn.2
    | down _ _ _ h' => exact ih h'
    | through _ he' =>
      rw [he] at he'
      simp [Option.some.inj he', isLink] at hlink
  | through hn he _ ih =>
    cases h' with
    | stay hn' => exact absurd hn' hn.1
    | up hn' => exact absurd hn' hn.2
    | down _ he' hlink =>
      rw [he] at he'
      simp [← Option.some.inj he', isLink] at hlink
    | through _ he' h' =>
      rw [he] at he'
      obtain rfl := Entry.link.inj (Option.some.inj he')
      obtain ⟨rfl, rfl⟩ := ih h'
      exact ⟨rfl, rfl⟩

/-- A `.` behind a path leads nowhere else. -/
theorem Leads.of_linkNames {target : String} (h : root.Leads place (Path.linkNames target) found k) :
    root.Leads place (Path.namesOf target) found k := by
  obtain ⟨mid, i, j, hnames, hrest, rfl⟩ := leads_append h
  split at hrest
  · cases hrest with
    | stay _ _ hrest =>
      cases hrest
      exact hnames
    | up hn => exact absurd hn (by decide)
    | down hn => exact absurd rfl hn.1
    | through hn => exact absurd rfl hn.1
  · cases hrest
    exact hnames

/-! ## Locations as paths -/

theorem plain_linkStart (h : ∀ n ∈ place, Path.Plain n) (target : String) :
    ∀ n ∈ Path.linkStart place target, Path.Plain n := by
  unfold Path.linkStart
  split
  · simp
  · exact h

/-- Following leads to plain names only. -/
theorem Leads.plain (h : root.Leads place names found k) (hplace : ∀ n ∈ place, Path.Plain n) :
    ∀ n ∈ found, Path.Plain n := by
  induction h with
  | done place => exact hplace
  | stay _ _ _ ih => exact ih hplace
  | up _ _ _ ih => exact ih fun n hn => hplace n (List.mem_of_mem_dropLast hn)
  | down hn _ _ _ ih =>
    refine ih fun m hm => ?_
    rcases List.mem_append.mp hm with hm | hm
    · exact hplace m hm
    · rwa [List.mem_singleton.mp hm]
  | through _ _ _ ih => exact ih (plain_linkStart hplace _)

/-- The names of a location lead to it, if there is something else than a link. -/
theorem leads_self (place : Location) {e : Entry} (h : root.at? (place ++ names) = some e) (hlink : e.isLink = false)
    (hplain : ∀ n ∈ names, Path.Plain n) : root.Leads place names (place ++ names) 0 := by
  induction names generalizing place with
  | nil => simpa using Leads.done place
  | cons n names ih =>
    have hsplit : place ++ n :: names = place ++ [n] ++ names := by simp
    rw [hsplit] at h ⊢
    have hrest := ih _ h fun m hm => hplain m (List.mem_cons_of_mem n hm)
    obtain ⟨x, hx, hxrest⟩ := Option.bind_eq_some_iff.mp ((at?_append root (place ++ [n]) names).symm.trans h)
    refine .down (hplain n List.mem_cons_self) hx ?_ hrest
    cases x with
    | file => rfl
    | dir => rfl
    | link target =>
      cases names with
      | nil =>
        simp only [at?, Option.some.injEq] at hxrest
        rw [hxrest, hlink]
      | cons m names => simp [at?] at hxrest

end Entry

namespace Path

/-- One name taken back or added. -/
theorem flatten_concat (names : List String) (n : String) :
    flatten (names ++ [n]) =
      if n = "." then flatten names else if n = ".." then (flatten names).dropLast
      else flatten names ++ [n] := by
  simp [flatten]

/-- Plain names are flat. -/
theorem flatten_eq_self {names : List String} (h : ∀ n ∈ names, Plain n) : flatten names = names := by
  induction names using List.reverseRecOn with
  | nil => rfl
  | append_singleton names m ih =>
    have hm : Plain m := h m (by simp)
    rw [flatten_concat, if_neg hm.1, if_neg hm.2, ih fun n hn => h n (by simp [hn])]

end Path

namespace Disk

/-- No directory has an entry called `.` or `..`, so the names that lead to the working directory are
plain. -/
def Standing (d : Disk) : Prop := ∀ n ∈ d.cwd, Path.Plain n

variable {d : Disk} {place found : Location} {names : List String} {k : Nat}

theorem locate_iff {p : Path} : d.locate true p = .ok found ↔
    ∃ k ≤ linkLimit, d.root.Leads (d.startOf p) p.names found k := locateFrom_iff

theorem plain_of_locate (hd : d.Standing) {p : Path} (h : d.locate true p = .ok found) :
    ∀ n ∈ found, Path.Plain n := by
  obtain ⟨k, -, hleads⟩ := locate_iff.mp h
  refine hleads.plain ?_
  unfold startOf
  split
  · simp
  · exact hd

/-- The path that spells a location leads there. -/
theorem locate_self {e : Entry} (h : d.root.at? place = some e) (hlink : e.isLink = false)
    (hplain : ∀ n ∈ place, Path.Plain n) : d.locate true ⟨true, place⟩ = .ok place :=
  locate_iff.mpr ⟨0, Nat.zero_le _, Entry.leads_self [] h hlink hplain⟩

/-! ## Resolving -/

/-- The link at `l` leads somewhere, through `c` links behind it. -/
def Costs (d : Disk) (l : Location) (c : Nat) : Prop :=
  ∃ target mid, d.root.at? l = some (.link target) ∧
    d.root.Leads (Path.linkStart l.dropLast target) (Path.linkNames target) mid c

theorem Costs.unique {l : Location} {c c' : Nat} (h : d.Costs l c) (h' : d.Costs l c') : c = c' := by
  obtain ⟨target, mid, hlink, hleads⟩ := h
  obtain ⟨target', mid', hlink', hleads'⟩ := h'
  rw [hlink] at hlink'
  obtain rfl := Entry.link.inj (Option.some.inj hlink')
  exact (hleads.unique hleads').2

/-- Links that cost no less than what is still to be followed are not met again, so following names and
replacing links agree. Replacing asks for links only: the names may be followed on any disk `d₁` that has the same
links. -/
theorem resolveFrom_of_leads {d₁ : Disk} {fuel : Nat} {entered : List Location}
    (hsame : ∀ l target, d₁.root.at? l = some (.link target) ↔ d.root.at? l = some (.link target))
    (h : d₁.root.Leads place names found k) (hentered : ∀ l ∈ entered, ∃ c, k ≤ c ∧ d₁.Costs l c)
    (hnodup : entered.Nodup) (hfuel : d.root.size < fuel + entered.length) :
    d.resolveFrom fuel entered place names = (found, true) := by
  induction fuel generalizing entered place names found k with
  | zero =>
    have hle : entered.length ≤ d.root.size := Entry.length_le_size hnodup fun l hl => by
      obtain ⟨c, -, target, mid, hlink, -⟩ := hentered l hl
      rw [(hsame _ _).mp hlink]
      rfl
    omega
  | succ fuel ih =>
    rw [resolveFrom]
    induction names generalizing place k with
    | nil =>
      cases h
      rfl
    | cons n rest ihnames =>
      rw [resolveNames]
      cases h with
      | stay hn _ h =>
        rw [if_pos hn]
        exact ihnames h hentered
      | up hn _ h =>
        rw [hn, if_neg (by decide), if_pos rfl]
        exact ihnames h hentered
      | @down _ _ _ e _ _ hn he hlink h =>
        have hnone : ∀ target, d.root.at? (place ++ [n]) ≠ some (.link target) := fun target htarget => by
          rw [(hsame _ _).mpr htarget] at he
          obtain rfl := Option.some.inj he
          cases hlink
        rw [if_neg hn.1, if_neg hn.2]
        split
        · next target htarget => exact absurd htarget (hnone target)
        · exact ihnames h hentered
      | @through _ _ _ target _ k hn he h =>
        obtain ⟨mid, i, j, htarget, hrest, hk⟩ := Entry.leads_append h
        have hcost : d₁.Costs (place ++ [n]) i :=
          ⟨target, mid, he, by rwa [List.dropLast_concat]⟩
        have hnew : place ++ [n] ∉ entered := fun hmem => by
          obtain ⟨c, hc, hcosts⟩ := hentered _ hmem
          have := hcosts.unique hcost
          omega
        have hinner := ih htarget.of_linkNames
          (List.forall_mem_cons.mpr ⟨⟨i, le_refl i, hcost⟩, fun l hl => by
            obtain ⟨c, hc, hcosts⟩ := hentered l hl
            exact ⟨c, by omega, hcosts⟩⟩)
          (List.nodup_cons.mpr ⟨hnew, hnodup⟩) (by rw [List.length_cons]; omega)
        rw [if_neg hn.1, if_neg hn.2, (hsame _ _).mp he]
        simp only [List.contains_iff_mem, hnew, if_false, hinner]
        refine ihnames hrest fun l hl => ?_
        obtain ⟨c, hc, hcosts⟩ := hentered l hl
        exact ⟨c, by omega, hcosts⟩

/-- **A path that leads to an entry resolves to its location.** -/
theorem resolve_of_locate (hd : d.Standing) {p : Path} {e : Entry} (h : d.locate true p = .ok place)
    (he : d.root.at? place = some e) (hlink : e.isLink = false) :
    d.resolve p = .ok ⟨true, place⟩ := by
  obtain ⟨k, -, hleads⟩ := locate_iff.mp h
  have hplain := plain_of_locate hd h
  have hfrom : d.resolveFrom (d.root.size + 1) [] (d.startOf p) p.names = (place, true) :=
    resolveFrom_of_leads (fun _ _ => Iff.rfl) hleads (by simp) List.nodup_nil (by simp)
  have hstat : d.stat ⟨true, place⟩ = .ok e := by
    simp [stat, locate_self he hlink hplain, entryAt, he, Except.bind]
  simp [resolve, hfrom, Path.flatten_eq_self hplain, hstat]

end Disk

/-! ## Paths and new files -/

namespace Entry

/-- Two entries that paths treat alike. -/
inductive Alike : Entry → Entry → Prop
  | file (m m' : Nat) (c c' : Text) : Alike (.file m c) (.file m' c')
  | link (target : String) : Alike (.link target) (.link target)
  | dir (es es' : Listing) : Alike (.dir es) (.dir es')

theorem Alike.of_face {e e' : Entry} (h : e.face = e'.face) : Alike e e' := by
  cases e <;> cases e' <;> simp only [face, reduceCtorEq, Face.file.injEq, Face.link.injEq] at h
  · exact .file ..
  · rw [h]
    exact .link _
  · exact .dir ..

theorem exists_alike_of_face {o o' : Option Entry} {e : Entry} (h : o'.map face = o.map face)
    (ho : o = some e) : ∃ e', o' = some e' ∧ Alike e e' := by
  rw [ho, Option.map_some] at h
  obtain ⟨e', he', hface⟩ := Option.map_eq_some_iff.mp h
  exact ⟨e', he', .of_face hface.symm⟩

variable {root root' : Entry} {place found : Location} {names : List String} {k : Nat}

/-- Paths lead where they led if what they meet stays alike. -/
theorem Leads.mono (h : root.Leads place names found k)
    (hkeep : ∀ l e, root.at? l = some e → ∃ e', root'.at? l = some e' ∧ Alike e e') :
    root'.Leads place names found k := by
  induction h with
  | done place => exact .done place
  | stay hn hdir _ ih =>
    obtain ⟨e', he', hlike⟩ := hkeep _ _ hdir
    cases hlike
    exact .stay hn he' ih
  | up hn hdir _ ih =>
    obtain ⟨e', he', hlike⟩ := hkeep _ _ hdir
    cases hlike
    exact .up hn he' ih
  | down hn he hlink _ ih =>
    obtain ⟨e', he', hlike⟩ := hkeep _ _ he
    refine .down hn he' ?_ ih
    cases hlike with
    | file => rfl
    | link => exact hlink
    | dir => rfl
  | through hn he _ ih =>
    obtain ⟨e', he', hlike⟩ := hkeep _ _ he
    cases hlike
    exact .through hn he' ih

section Put

variable {holder : Location} {n : String} {es : Listing} {new : Entry}

/-- A new entry at a free location disturbs no other. -/
theorem exists_alike_put (hholder : root.at? holder = some (.dir es))
    (hfree : root.at? (holder ++ [n]) = none) {l : Location} {e : Entry} (he : root.at? l = some e) :
    ∃ e', (put new (holder ++ [n]) root).at? l = some e' ∧ Alike e e' := by
  by_cases hl : l = holder
  · rw [hl, hholder] at he
    obtain rfl := Option.some.inj he
    rw [hl]
    exact ⟨_, at?_put_holder hholder, .dir _ _⟩
  · refine exists_alike_of_face (face_at?_put hl ?_) he
    rintro ⟨rest, rfl⟩
    rw [at?_append, hfree] at he
    cases he

/-- A new entry at a free location keeps all paths. -/
theorem Leads.put (h : root.Leads place names found k) (hholder : root.at? holder = some (.dir es))
    (hfree : root.at? (holder ++ [n]) = none) :
    (put new (holder ++ [n]) root).Leads place names found k :=
  h.mono fun _ _ he => exists_alike_put hholder hfree he

/-- What stands elsewhere after a file was put stood there before. -/
theorem exists_alike_of_put {l : Location} {e : Entry} (hholder : root.at? holder = some (.dir es))
    (hnew : new.isDir = false) (hl : l ≠ holder ++ [n])
    (he : (put new (holder ++ [n]) root).at? l = some e) :
    ∃ e', root.at? l = some e' ∧ Alike e e' := by
  by_cases hlh : l = holder
  · rw [hlh, at?_put_holder hholder] at he
    obtain rfl := Option.some.inj he
    rw [hlh]
    exact ⟨_, hholder, .dir _ _⟩
  · refine exists_alike_of_face (face_at?_put hlh ?_).symm he
    rintro ⟨rest, rfl⟩
    have hrest : rest ≠ [] := fun h => hl (by simp [h])
    rw [at?_append_eq_none (at?_put_self hholder _ _) hnew hrest] at he
    cases he

/-- From a file no path goes on. -/
theorem Leads.eq_of_file {m : Nat} {c : Text} (h : root.Leads place names found k)
    (hfile : root.at? place = some (.file m c)) : found = place := by
  cases h with
  | done => rfl
  | stay _ hdir =>
    rw [hfile] at hdir
    cases hdir
  | up _ hdir =>
    rw [hfile] at hdir
    cases hdir
  | down _ he =>
    rw [at?_append, hfile] at he
    cases he
  | through _ he =>
    rw [at?_append, hfile] at he
    cases he

/-- **A path that leads elsewhere than to a new file led there before.** -/
theorem Leads.of_put {m : Nat} {c : Text} (hholder : root.at? holder = some (.dir es))
    (h : (Entry.put (.file m c) (holder ++ [n]) root).Leads place names found k)
    (hfound : found ≠ holder ++ [n]) : root.Leads place names found k := by
  have hself := at?_put_self hholder n (.file m c)
  have hback : ∀ {l e}, (Entry.put (.file m c) (holder ++ [n]) root).at? l = some e → l ≠ holder ++ [n] →
      ∃ e', root.at? l = some e' ∧ Alike e e' := fun he hl => exists_alike_of_put hholder rfl hl he
  induction h with
  | done place => exact .done place
  | stay hn hdir h ih =>
    obtain ⟨e', he', hlike⟩ := hback hdir fun heq => by rw [heq, hself] at hdir; cases hdir
    cases hlike
    exact .stay hn he' (ih hfound)
  | up hn hdir h ih =>
    obtain ⟨e', he', hlike⟩ := hback hdir fun heq => by rw [heq, hself] at hdir; cases hdir
    cases hlike
    exact .up hn he' (ih hfound)
  | down hn he hlink h ih =>
    obtain ⟨e', he', hlike⟩ := hback he fun heq => by
      rw [heq] at h
      exact hfound (h.eq_of_file hself)
    refine .down hn he' ?_ (ih hfound)
    cases hlike with
    | file => rfl
    | link => exact hlink
    | dir => rfl
  | through hn he h ih =>
    obtain ⟨e', he', hlike⟩ := hback he fun heq => by rw [heq, hself] at he; cases he
    cases hlike
    exact .through hn he' (ih hfound)

end Put

end Entry

end Stopwatch
