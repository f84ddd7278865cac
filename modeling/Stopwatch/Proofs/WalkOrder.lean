import Mathlib
import Stopwatch.Proofs.Shapes

/-!
# What a walk finds

A walk keeps a list of paths and looks at the first. Looking at a path gives what is at it and below it
before anything else is looked at (`Walk.Gathers`), so a walk is a recursion through the tree: a link is
never entered, and that is why it ends whatever the links of the disk are.

* `Disk.lstat_child`, `Disk.stat_child`: the entries of a directory that a path leads to.
* `Walk.gathers_child`: what looking at one entry gives, by induction on the size of the entry.
* `Walk.sourceFiles_eligible`: a walk lists the eligible paths below its root, all of them and once each,
  in the order of their names.
-/

namespace Stopwatch

/-! ## Listings -/

instance : DecidablePred Path.Plain := fun n => inferInstanceAs (Decidable (n ≠ "." ∧ n ≠ ".."))

namespace Listing

/-- No two entries have one name, and none is called `.` or `..`. -/
def Named (es : Listing) : Prop := (es.map Prod.fst).Nodup ∧ ∀ n ∈ es.map Prod.fst, Path.Plain n

instance (es : Listing) : Decidable (Named es) := inferInstanceAs (Decidable (_ ∧ _))

theorem exists_find?_of_mem {es : Listing} {n : String} (h : n ∈ es.map Prod.fst) :
    ∃ e, find? es n = some e := by
  induction es with
  | nil => simp at h
  | cons p es ih =>
    obtain ⟨m, x⟩ := p
    rw [find?_cons]
    by_cases hn : n = m
    · exact ⟨x, if_pos hn⟩
    · rw [if_neg hn]
      exact ih ((List.mem_cons.mp h).resolve_left hn)

theorem mem_of_find? {es : Listing} {n : String} {e : Entry} (h : find? es n = some e) :
    n ∈ es.map Prod.fst := by
  induction es with
  | nil => simp [find?] at h
  | cons p es ih =>
    obtain ⟨m, x⟩ := p
    rw [find?_cons] at h
    by_cases hn : n = m
    · simp [hn]
    · rw [if_neg hn] at h
      exact List.mem_cons_of_mem _ (ih h)

theorem mem_sortedNames {es : Listing} {n : String} : n ∈ sortedNames es ↔ n ∈ es.map Prod.fst :=
  (List.mergeSort_perm _ _).mem_iff

/-- Different names are sorted strictly. -/
theorem pairwise_sortedNames {es : Listing} (h : (es.map Prod.fst).Nodup) :
    (sortedNames es).Pairwise (· < ·) := by
  have hle : (sortedNames es).Pairwise (· ≤ ·) := by
    have hsorted : (sortedNames es).Pairwise fun a b => decide (a ≤ b) = true :=
      List.pairwise_mergeSort
        (fun a b c hab hbc => by simpa using (of_decide_eq_true hab).trans (of_decide_eq_true hbc))
        (fun a b => by simpa using le_total a b) (es.map Prod.fst)
    exact hsorted.imp fun hab => of_decide_eq_true hab
  have hne : (sortedNames es).Nodup := (List.mergeSort_perm _ _).nodup_iff.mpr h
  exact hle.imp₂ (fun _ _ hab hne => lt_of_le_of_ne hab hne) hne

/-- The size of the entry of a name. -/
def sizeAt (es : Listing) (n : String) : Nat := ((find? es n).map Entry.size).getD 0

theorem sizeAt_of_find? {es : Listing} {n : String} {e : Entry} (h : find? es n = some e) :
    sizeAt es n = e.size := by
  simp [sizeAt, h]

theorem sum_map_sizeAt {es : Listing} (h : (es.map Prod.fst).Nodup) :
    ((es.map Prod.fst).map (sizeAt es)).sum = Entry.sizes es := by
  induction es with
  | nil => rfl
  | cons p es ih =>
    obtain ⟨m, x⟩ := p
    obtain ⟨hm, hrest⟩ := List.nodup_cons.mp h
    have hhead : sizeAt ((m, x) :: es) m = x.size := sizeAt_of_find? (by rw [find?_cons, if_pos rfl])
    have htail : (es.map Prod.fst).map (sizeAt ((m, x) :: es)) = (es.map Prod.fst).map (sizeAt es) := by
      refine List.map_congr_left fun n hn => ?_
      have hne : n ≠ m := fun heq => hm (heq ▸ hn)
      rw [sizeAt, find?_cons, if_neg hne, sizeAt]
    rw [List.map_cons, List.map_cons, List.sum_cons, htail, ih hrest, hhead, Entry.sizes]

theorem sum_sizeAt_sortedNames {es : Listing} (h : (es.map Prod.fst).Nodup) :
    ((sortedNames es).map (sizeAt es)).sum = Entry.sizes es :=
  (((List.mergeSort_perm _ _).map (sizeAt es)).sum_eq).trans (sum_map_sizeAt h)

theorem size_le_sizes {es : Listing} {n : String} {e : Entry} (h : find? es n = some e) :
    e.size ≤ Entry.sizes es := by
  induction es with
  | nil => simp [find?] at h
  | cons p es ih =>
    obtain ⟨m, x⟩ := p
    rw [find?_cons] at h
    rw [Entry.sizes]
    split_ifs at h with hn
    · obtain rfl := Option.some.inj h
      exact Nat.le_add_right _ _
    · exact (ih h).trans (Nat.le_add_left _ _)

end Listing

theorem Entry.size_le_of_at? {root e : Entry} {l : Location} (h : root.at? l = some e) :
    e.size ≤ root.size := by
  induction l generalizing root with
  | nil =>
    obtain rfl : root = e := by cases root <;> simpa [Entry.at?] using h
    exact Nat.le_refl _
  | cons n l ih =>
    cases root with
    | file => simp [Entry.at?] at h
    | link => simp [Entry.at?] at h
    | dir es =>
      rw [Entry.at?_cons_dir] at h
      obtain ⟨x, hfind, hx⟩ := Option.bind_eq_some_iff.mp h
      have hsizes := Listing.size_le_sizes hfind
      have hsize := ih hx
      rw [Entry.size]
      omega

/-- The entries of a directory; nothing else has any. -/
def Entry.listing : Entry → Listing
  | dir es => es
  | _ => []

/-! ## The entries of a directory that a path leads to -/

namespace Disk

/-- The names in every directory tell its entries apart. -/
def Named (d : Disk) : Prop := ∀ place es, d.root.at? place = some (.dir es) → Listing.Named es

theorem named_of_inside {d : Disk} (h : ∀ p ∈ ([], d.root) :: d.root.inside, p.2.listing.Named) :
    d.Named := by
  intro place es hdir
  cases place with
  | nil =>
    have hroot : d.root = .dir es := by
      cases hd : d.root <;> simp_all [Entry.at?]
    simpa [hroot, Entry.listing] using h _ List.mem_cons_self
  | cons n l => exact h _ (List.mem_cons_of_mem _ (Entry.mem_inside_of_at? hdir (by simp)))

variable {d : Disk} {place mid : Location} {names : List String} {k links : Nat} {n : String} {e : Entry}
  {p : Path}

/-- The last name of a path names the entry itself, where the names before it lead to a directory. -/
theorem locateFrom_concat (h : d.root.Leads place names mid k) (hk : k ≤ links) (hn : Path.Plain n)
    (he : d.root.at? (mid ++ [n]) = some e) :
    d.locateFrom false links place (names ++ [n]) = .ok (mid ++ [n]) := by
  induction h generalizing links with
  | done place =>
    rw [List.nil_append, locateFrom]
    cases hlink : e.isLink with
    | false => rw [Entry.follow_down hn he hlink]; rfl
    | true =>
      obtain ⟨target, rfl⟩ : ∃ target, e = .link target := by
        cases e <;> simp [Entry.isLink] at hlink
        exact ⟨_, rfl⟩
      rw [Entry.follow_through hn he]
      rfl
  | stay hdot hdir _ ih => rw [hdot, List.cons_append, locateFrom_congr (Entry.follow_stay hdir _), ih hk he]
  | up hdots hdir _ ih => rw [hdots, List.cons_append, locateFrom_congr (Entry.follow_up hdir _), ih hk he]
  | down hm hx hlink _ ih =>
    rw [List.cons_append, locateFrom_congr (Entry.follow_down hm hx hlink _), ih hk he]
  | through hm hx _ ih =>
    obtain ⟨links, rfl⟩ := Nat.exists_eq_add_of_lt hk
    rw [show _ + links + 1 = (_ + links) + 1 from rfl, locateFrom, List.cons_append,
      Entry.follow_through hm hx]
    simpa using ih (Nat.le_add_right _ links) he

theorem lstat_child (h : d.locate true p = .ok mid) (hn : Path.Plain n)
    (he : d.root.at? (mid ++ [n]) = some e) : d.lstat (p.child n) = .ok e := by
  obtain ⟨k, hk, hleads⟩ := locate_iff.mp h
  have hchild : d.locate false (p.child n) = .ok (mid ++ [n]) := locateFrom_concat hleads hk hn he
  simp [lstat, hchild, entryAt, he, Except.bind]

theorem isLink_child (h : d.locate true p = .ok mid) (hn : Path.Plain n)
    (he : d.root.at? (mid ++ [n]) = some e) : d.isLink (p.child n) = e.isLink := by
  simp [isLink, lstat_child h hn he]

theorem stat_child (h : d.locate true p = .ok mid) (hn : Path.Plain n)
    (he : d.root.at? (mid ++ [n]) = some e) (hlink : e.isLink = false) : d.stat (p.child n) = .ok e := by
  simp [stat, locate_child h hn he hlink, entryAt, he, Except.bind]

end Disk

namespace Walk

variable {d : Disk} {s : Settings}

/-! ## Looking at paths -/

/-- Looking at `paths` takes `n` steps and gives `files`, whatever is still to be looked at behind them. -/
def Gathers (d : Disk) (s : Settings) (paths : List Path) (n : Nat) (files : List Path) : Prop :=
  ∀ m rest, collect d s (n + m) (paths ++ rest) = (collect d s m rest).map (files ++ ·)

theorem gathers_nil : Gathers d s [] 0 [] := fun m rest => by
  cases h : collect d s m rest <;> simp [h, Except.map]

theorem Gathers.append {ps qs fs gs : List Path} {a b : Nat} (hp : Gathers d s ps a fs)
    (hq : Gathers d s qs b gs) : Gathers d s (ps ++ qs) (a + b) (fs ++ gs) := fun m rest => by
  rw [Nat.add_assoc, List.append_assoc, hp, hq]
  cases collect d s m rest <;> simp [Except.map]

/-- A path that only puts others in its place. -/
theorem Gathers.passed {p : Path} {paths files : List Path} {n : Nat}
    (hstep : ∀ rest, step d s (p :: rest) = .passed (paths ++ rest)) (h : Gathers d s paths n files) :
    Gathers d s [p] (n + 1) files := fun m rest => by
  rw [Nat.add_right_comm, List.singleton_append, collect, hstep]
  exact h m rest

/-- A path that is a source. -/
theorem gathers_found {p : Path} (hstep : ∀ rest, step d s (p :: rest) = .found p rest) :
    Gathers d s [p] 1 [p] := fun m rest => by
  rw [Nat.add_comm, List.singleton_append, collect, hstep]
  rfl

/-! ## What there is to find -/

/-- The entry at a path is a source: a file or a link to one, of the right name. -/
structure Eligible (d : Disk) (s : Settings) (p : Path) (e : Entry) : Prop where
  regular : e.isFile = true ∨ e.isLink = true ∧ d.isFile p = true
  extension : s.sourceExtension.toList <:+ p.name.toList
  unreserved : p.name ≠ s.reservedFilename

theorem isSource_iff {p : Path} : s.isSource p = true ↔
    s.sourceExtension.toList <:+ p.name.toList ∧ p.name ≠ s.reservedFilename := by
  simp [Settings.isSource]

/-- `files` are the sources at and below the path `p`, in the order of their names: an entry of the tree
`e` is at the names that lead to it, and `among` tells which of them count. -/
structure Lists (d : Disk) (s : Settings) (p : Path) (e : Entry) (among : Location → Prop)
    (files : List Path) : Prop where
  mem : ∀ q, q ∈ files ↔
    ∃ l x, among l ∧ q = ⟨p.absolute, p.names ++ l⟩ ∧ e.at? l = some x ∧ Eligible d s q x
  sorted : files.Pairwise fun q r => q.names < r.names

/-- Names behind different names are ordered like these. -/
theorem append_lt_append {front l l' : List String} {n n' : String} (h : n < n') :
    front ++ n :: l < front ++ n' :: l' := List.Lex.append_left _ (List.Lex.rel h) front

section Children

variable {p : Path} {es : Listing}

/-- The entries of a directory are looked at one after another. -/
theorem gathers_children {ns : List String} (hsorted : ns.Pairwise (· < ·))
    (hchild : ∀ n ∈ ns, ∃ e files, Listing.find? es n = some e ∧ Gathers d s [p.child n] e.size files ∧
      Lists d s (p.child n) e (fun _ => True) files) :
    ∃ files, Gathers d s (ns.map p.child) (ns.map es.sizeAt).sum files ∧
      Lists d s p (.dir es) (fun l => ∃ n ∈ ns, l.head? = some n) files := by
  induction ns with
  | nil => exact ⟨[], gathers_nil, by simp, List.Pairwise.nil⟩
  | cons n ns ih =>
    obtain ⟨hn, hns⟩ := List.pairwise_cons.mp hsorted
    obtain ⟨e, fs, hfind, hgathers, hlists⟩ := hchild n List.mem_cons_self
    obtain ⟨gs, hgathers', hlists'⟩ := ih hns fun m hm => hchild m (List.mem_cons_of_mem n hm)
    refine ⟨fs ++ gs, ?_, fun q => ?_, ?_⟩
    · rw [List.map_cons, List.map_cons, List.sum_cons, Listing.sizeAt_of_find? hfind]
      exact hgathers.append hgathers'
    · rw [List.mem_append, hlists.mem, hlists'.mem]
      constructor
      · rintro (⟨l, x, -, rfl, hx, heligible⟩ | ⟨l, x, ⟨m, hm, hl⟩, rfl, hx, heligible⟩)
        · refine ⟨n :: l, x, ⟨n, List.mem_cons_self, rfl⟩, by simp [Path.child], ?_, heligible⟩
          rw [Entry.at?_cons_dir, hfind]
          exact hx
        · exact ⟨l, x, ⟨m, List.mem_cons_of_mem n hm, hl⟩, rfl, hx, heligible⟩
      · rintro ⟨l, x, ⟨m, hm, hl⟩, rfl, hx, heligible⟩
        rcases List.mem_cons.mp hm with rfl | hm
        · obtain ⟨l, rfl⟩ : ∃ rest, l = m :: rest := by
            cases l <;> simp_all
          rw [Entry.at?_cons_dir, hfind] at hx
          exact .inl ⟨l, x, trivial, by simp [Path.child], hx, heligible⟩
        · exact .inr ⟨l, x, ⟨m, hm, hl⟩, rfl, hx, heligible⟩
    · refine List.pairwise_append.mpr ⟨hlists.sorted, hlists'.sorted, fun q hq r hr => ?_⟩
      obtain ⟨l, x, -, rfl, -⟩ := (hlists.mem q).mp hq
      obtain ⟨l', x', ⟨m, hm, hl'⟩, rfl, -⟩ := (hlists'.mem r).mp hr
      obtain ⟨l', rfl⟩ : ∃ rest, l' = m :: rest := by
        cases l' <;> simp_all
      simpa [Path.child] using append_lt_append (hn m hm)

/-- Every source below a directory is at or below one of its entries. -/
theorem Lists.of_children {files : List Path}
    (h : Lists d s p (.dir es) (fun l => ∃ n ∈ Listing.sortedNames es, l.head? = some n) files) :
    Lists d s p (.dir es) (fun _ => True) files where
  sorted := h.sorted
  mem q := by
    rw [h.mem]
    constructor
    · rintro ⟨l, x, -, hl⟩
      exact ⟨l, x, trivial, hl⟩
    · rintro ⟨l, x, -, hq, hx, heligible⟩
      refine ⟨l, x, ?_, hq, hx, heligible⟩
      cases l with
      | nil =>
        -- The directory itself is no source.
        obtain rfl := Option.some.inj hx
        simpa [Entry.isFile, Entry.isLink] using heligible.regular
      | cons n l =>
        rw [Entry.at?_cons_dir] at hx
        obtain ⟨y, hfind, -⟩ := Option.bind_eq_some_iff.mp hx
        exact ⟨n, Listing.mem_sortedNames.mpr (Listing.mem_of_find? hfind), rfl⟩

end Children

theorem at?_eq_some_iff_of_not_dir {e x : Entry} (he : e.isDir = false) {l : Location} :
    e.at? l = some x ↔ l = [] ∧ e = x := by
  cases e with
  | dir => simp [Entry.isDir] at he
  | file => cases l <;> simp [Entry.at?]
  | link => cases l <;> simp [Entry.at?]

/-- What is no directory is a source, or nothing is found. -/
theorem gathers_leaf {p : Path} {e : Entry} (source : Bool) (he : e.isDir = false)
    (hstep : ∀ rest, step d s (p :: rest) = if source then .found p rest else .passed rest)
    (hsource : source = true ↔ Eligible d s p e) :
    ∃ files, Gathers d s [p] e.size files ∧ Lists d s p e (fun _ => True) files := by
  have hsize : e.size = 1 := by
    cases e <;> simp_all [Entry.size, Entry.isDir]
  rw [hsize]
  cases source with
  | false =>
    have hpassed : ∀ rest, step d s (p :: rest) = .passed ([] ++ rest) := hstep
    refine ⟨[], gathers_nil.passed hpassed, fun q => ?_, List.Pairwise.nil⟩
    simp only [List.not_mem_nil, false_iff]
    rintro ⟨l, x, -, rfl, hx, heligible⟩
    obtain ⟨rfl, rfl⟩ := (at?_eq_some_iff_of_not_dir he).mp hx
    exact absurd (hsource.mpr (by simpa using heligible)) (by decide)
  | true =>
    refine ⟨[p], gathers_found hstep, fun q => ?_, List.pairwise_singleton _ _⟩
    rw [List.mem_singleton]
    constructor
    · rintro rfl
      exact ⟨[], e, trivial, by simp, (at?_eq_some_iff_of_not_dir he).mpr ⟨rfl, rfl⟩, hsource.mp rfl⟩
    · rintro ⟨l, x, -, rfl, hx, -⟩
      obtain ⟨rfl, -⟩ := (at?_eq_some_iff_of_not_dir he).mp hx
      simp

/-- **Looking at one entry** gives the sources at and below it, in as many steps as the tree there has
entries. -/
theorem gathers_child (hd : d.Named) {p : Path} {place : Location} {es : Listing} {n : String} {e : Entry}
    (hlocate : d.locate true p = .ok place) (hdir : d.root.at? place = some (.dir es))
    (he : Listing.find? es n = some e) :
    ∃ files, Gathers d s [p.child n] e.size files ∧ Lists d s (p.child n) e (fun _ => True) files := by
  induction hsize : e.size using Nat.strong_induction_on generalizing p place es n e with
  | _ size ih =>
    subst hsize
    have hat : d.root.at? (place ++ [n]) = some e := (Entry.at?_concat hdir n).trans he
    have hplain : Path.Plain n := (hd place es hdir).2 n (Listing.mem_of_find? he)
    have hlink := Disk.isLink_child hlocate hplain hat
    cases e with
    | file mode content =>
      have hdir : d.isDir (p.child n) = false := by
        simp [Disk.isDir, Disk.stat_child hlocate hplain hat rfl, Entry.isDir]
      refine gathers_leaf (s.isSource (p.child n)) rfl (fun rest => ?_) ?_
      · simp [step, hlink, hdir, Entry.isLink]
      · rw [isSource_iff]
        exact ⟨fun h => ⟨.inl rfl, h.1, h.2⟩, fun h => ⟨h.extension, h.unreserved⟩⟩
    | link target =>
      refine gathers_leaf (d.isFile (p.child n) && s.isSource (p.child n)) rfl (fun rest => ?_) ?_
      · simp [step, hlink, Entry.isLink]
      · rw [Bool.and_eq_true, isSource_iff]
        refine ⟨fun h => ⟨.inr ⟨rfl, h.1⟩, h.2.1, h.2.2⟩, fun h => ⟨?_, h.extension, h.unreserved⟩⟩
        rcases h.regular with hfile | ⟨-, hfile⟩
        · cases hfile
        · exact hfile
    | dir fs =>
      have hfound : d.locate true (p.child n) = .ok (place ++ [n]) := Disk.locate_child hlocate hplain hat rfl
      have hstat := Disk.stat_child hlocate hplain hat rfl
      have hnames := (hd _ fs hat).1
      obtain ⟨files, hgathers, hlists⟩ := gathers_children (d := d) (s := s) (p := p.child n)
        (Listing.pairwise_sortedNames hnames) fun m hm => by
          obtain ⟨x, hx⟩ := Listing.exists_find?_of_mem (Listing.mem_sortedNames.mp hm)
          have hlt : x.size < (Entry.dir fs).size := by
            have := Listing.size_le_sizes hx
            rw [Entry.size]
            omega
          obtain ⟨files, hfiles⟩ := ih x.size hlt hfound hat hx rfl
          exact ⟨x, files, hx, hfiles⟩
      refine ⟨files, ?_, hlists.of_children⟩
      rw [Entry.size, Nat.add_comm, ← Listing.sum_sizeAt_sortedNames hnames]
      refine hgathers.passed fun rest => ?_
      have hdir : d.isDir (p.child n) = true := by simp [Disk.isDir, hstat, Entry.isDir]
      simp [step, hlink, hdir, entries, Disk.list, hstat, Except.map, Entry.isLink]

/-- **A walk finds the sources below a directory, in order.** On every disk, whatever its links, a walk
through a directory ends, and no more steps would find more. It gives the paths below the directory that
lead through directories, not through links, to a file or to a link to a file, where the name is that of
a source: each of them once, in the order of the names on the way. -/
theorem sourceFiles_eligible {d : Disk} (s : Settings) {root : Path} (hd : d.Named)
    (hroot : d.isDir root = true) :
    ∃ place es paths files, d.locate true root = .ok place ∧ d.root.at? place = some (.dir es) ∧
      entries d root = .ok paths ∧ (∀ n, bound d ≤ n → collect d s n paths = .ok files) ∧
      sourceFiles d s root = .ok files ∧
      (∀ p, p ∈ files ↔ ∃ below e, p = ⟨root.absolute, root.names ++ below⟩ ∧
        d.root.at? (place ++ below) = some e ∧ Eligible d s p e) ∧
      files.Nodup ∧ files.Pairwise fun p q => p.names < q.names := by
  obtain ⟨place, es, hlocate, hdir⟩ := Disk.isDir_iff.mp hroot
  have hnames := (hd place es hdir).1
  have hentries : entries d root = .ok ((Listing.sortedNames es).map root.child) := by
    have hstat : d.stat root = .ok (.dir es) := by
      simp [Disk.stat, hlocate, Disk.entryAt, hdir, Except.bind]
    simp [entries, Disk.list, hstat, Except.map]
  obtain ⟨files, hgathers, hlists⟩ := gathers_children (d := d) (s := s) (p := root)
    (Listing.pairwise_sortedNames hnames) fun n hn => by
      obtain ⟨x, hx⟩ := Listing.exists_find?_of_mem (Listing.mem_sortedNames.mp hn)
      obtain ⟨files, hfiles⟩ := gathers_child hd hlocate hdir hx
      exact ⟨x, files, hx, hfiles⟩
  have hcollect : ∀ n, bound d ≤ n → collect d s n ((Listing.sortedNames es).map root.child) = .ok files := by
    intro n hn
    have hsize := Entry.size_le_of_at? hdir
    rw [Entry.size] at hsize
    obtain ⟨m, rfl⟩ : ∃ m, n = ((Listing.sortedNames es).map (Listing.sizeAt es)).sum + m := by
      refine Nat.exists_eq_add_of_le ?_
      rw [Listing.sum_sizeAt_sortedNames hnames]
      rw [bound] at hn
      omega
    have hrest : collect d s m [] = .ok [] := by cases m <;> rfl
    have hrun := hgathers m []
    rwa [List.append_nil, hrest, Except.map, List.append_nil] at hrun
  refine ⟨place, es, _, files, hlocate, hdir, hentries, hcollect, ?_, fun p => ?_,
    hlists.sorted.imp fun h heq => absurd (heq ▸ h) (lt_irrefl _), hlists.sorted⟩
  · rw [sourceFiles, hentries]
    exact hcollect _ (Nat.le_refl _)
  · rw [hlists.of_children.mem]
    constructor
    · rintro ⟨l, x, -, hp, hx, heligible⟩
      exact ⟨l, x, hp, by rw [Entry.at?_append, hdir]; exact hx, heligible⟩
    · rintro ⟨l, x, hp, hx, heligible⟩
      rw [Entry.at?_append, hdir] at hx
      exact ⟨l, x, trivial, hp, hx, heligible⟩

namespace Sample

/-- A directory with a file beside a directory of nearly the same name, a link that leads back up, one that
leads nowhere, one that leads to itself, and one to a file. -/
def linkedDisk : Disk where
  root := .dir [("w", .dir [("b", .dir [("z.go", .file 0o644 []), ("a.go", .link "../b.go")]),
    ("b.go", .file 0o644 []), ("loop.go", .link "loop.go"), ("gone.go", .link "none"), ("up", .link "..")])]

/-- Its directory, reached through one of the links. -/
def linkedRoot : Path := ⟨true, ["w", "up", "w"]⟩

end Sample

/-- Links in circles and links to nothing. -/
theorem sourceFiles_eligible_links :
    Sample.linkedDisk.Named ∧ Sample.linkedDisk.isDir Sample.linkedRoot = true ∧
      ∃ files, sourceFiles Sample.linkedDisk {} Sample.linkedRoot = .ok files ∧
        Sample.linkedRoot.join "b/a.go" ∈ files ∧ Sample.linkedRoot.join "loop.go" ∉ files := by
  have hnamed : Sample.linkedDisk.Named := Disk.named_of_inside (by decide +kernel)
  have hdir : Sample.linkedDisk.isDir Sample.linkedRoot = true := by decide +kernel
  obtain ⟨place, es, paths, files, hlocate, -, -, -, hfiles, hmem, -⟩ :=
    sourceFiles_eligible {} hnamed hdir
  have hplace : Sample.linkedDisk.locate true Sample.linkedRoot = .ok ["w"] := by decide +kernel
  obtain rfl := Except.ok.inj (hplace.symm.trans hlocate)
  refine ⟨hnamed, hdir, files, hfiles, (hmem _).mpr ?_, fun h => ?_⟩
  · refine ⟨["b", "a.go"], .link "../b.go", by decide +kernel, rfl, .inr ⟨rfl, by decide +kernel⟩, ?_, ?_⟩
    · decide +kernel
    · decide +kernel
  · obtain ⟨below, e, hp, he, heligible⟩ := (hmem _).mp h
    obtain rfl : ["loop.go"] = below := List.append_cancel_left (Path.mk.inj hp).2
    obtain rfl : Entry.link "loop.go" = e := Option.some.inj he
    rcases heligible.regular with hfile | ⟨-, hfile⟩
    · cases hfile
    · exact absurd hfile (by decide +kernel)

end Walk

end Stopwatch
