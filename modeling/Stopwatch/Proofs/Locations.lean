import Mathlib
import Stopwatch.Disk.Change

/-!
# What stands at a location

Changing an entry of a directory changes the listing of that directory (`Entry.relist`), so changes one
after another in the same directory come down to what they do to one listing.

* `Entry.face`: what an entry shows without its own entries being entered. `Entry.face_at?_put`: putting an
  entry changes the face of its own location and, when it is new, that of its directory.
* `Entry.length_le_size`: different locations with an entry are no more than the tree has entries.
-/

namespace Stopwatch

/-! ## Listings -/

namespace Listing

theorem find?_cons (m n : String) (e : Entry) (es : Listing) :
    find? ((m, e) :: es) n = if n = m then some e else find? es n := by
  unfold find?
  rw [List.lookup_cons]
  by_cases h : n = m
  · simp [h]
  · simp [h, beq_eq_false_iff_ne.mpr h]

theorem find?_set_self (es : Listing) (n : String) (e : Entry) : find? (set es n e) n = some e := by
  induction es with
  | nil => simp [set, find?_cons]
  | cons p es ih =>
    obtain ⟨m, old⟩ := p
    by_cases h : m = n
    · simp [set, h, find?_cons]
    · simp [set, h, find?_cons, Ne.symm h, ih]

theorem find?_set_of_ne {m n : String} (h : m ≠ n) (es : Listing) (e : Entry) :
    find? (set es n e) m = find? es m := by
  induction es with
  | nil => simp [set, h, find?]
  | cons p es ih =>
    obtain ⟨k, old⟩ := p
    by_cases hk : k = n
    · simp [set, hk, find?_cons, h]
    · simp [set, hk, find?_cons, ih]

theorem set_set (es : Listing) (n : String) (e e' : Entry) : set (set es n e) n e' = set es n e' := by
  induction es with
  | nil => simp [set]
  | cons p es ih =>
    obtain ⟨m, old⟩ := p
    by_cases h : m = n <;> simp [set, h, ih]

/-- Setting what is there already changes nothing. -/
theorem set_eq_self {es : Listing} {n : String} {e : Entry} (h : find? es n = some e) :
    set es n e = es := by
  induction es with
  | nil => simp [find?] at h
  | cons p es ih =>
    obtain ⟨m, old⟩ := p
    rw [find?_cons] at h
    by_cases hm : m = n
    · rw [if_pos hm.symm] at h
      simp [set, hm, Option.some.inj h]
    · rw [if_neg (Ne.symm hm)] at h
      simp [set, hm, ih h]

/-- Taking away a new entry gives the old listing. -/
theorem erase_set_of_find?_none {es : Listing} {n : String} (h : find? es n = none) (e : Entry) :
    erase (set es n e) n = es := by
  induction es with
  | nil => simp [set, erase]
  | cons p es ih =>
    obtain ⟨m, old⟩ := p
    rw [find?_cons] at h
    by_cases hm : m = n
    · simp [hm] at h
    · rw [if_neg (Ne.symm hm)] at h
      have hrest : erase (set es n e) n = es := ih h
      rw [erase] at hrest
      simp [set, hm, erase, hrest]

/-- Setting a name that is there keeps the names. -/
theorem map_fst_set {es : Listing} {n : String} {old : Entry} (h : find? es n = some old) (e : Entry) :
    (set es n e).map Prod.fst = es.map Prod.fst := by
  induction es with
  | nil => simp [find?] at h
  | cons p es ih =>
    obtain ⟨m, x⟩ := p
    rw [find?_cons] at h
    by_cases hm : m = n
    · simp [set, hm]
    · rw [if_neg (Ne.symm hm)] at h
      simp [set, hm, ih h]

end Listing

/-! ## Reading and changing a tree -/

namespace Entry

theorem at?_append (e : Entry) (place rest : Location) :
    e.at? (place ++ rest) = (e.at? place).bind (·.at? rest) := by
  induction place generalizing e with
  | nil => cases e <;> simp [at?]
  | cons n place ih =>
    cases e with
    | dir es => cases h : Listing.find? es n <;> simp [at?, h, ih]
    | file m c => simp [at?]
    | link t => simp [at?]

theorem at?_cons_dir (es : Listing) (n : String) (place : Location) :
    (dir es).at? (n :: place) = (Listing.find? es n).bind (·.at? place) := rfl

/-- An entry of a directory is found by its name. -/
theorem at?_concat {root : Entry} {place : Location} {es : Listing} (h : root.at? place = some (.dir es))
    (n : String) : root.at? (place ++ [n]) = Listing.find? es n := by
  rw [at?_append, h, Option.bind_some, at?_cons_dir]
  cases Listing.find? es n with
  | none => rfl
  | some e => cases e <;> rfl

/-- What has an entry below it is a directory. -/
theorem exists_dir_of_at?_concat {root : Entry} {place : Location} {n : String} {e : Entry}
    (h : root.at? (place ++ [n]) = some e) : ∃ es, root.at? place = some (.dir es) := by
  rw [at?_append] at h
  obtain ⟨holder, hholder, hentry⟩ := Option.bind_eq_some_iff.mp h
  cases holder with
  | dir es => exact ⟨es, hholder⟩
  | file m c => simp [at?] at hentry
  | link t => simp [at?] at hentry

/-- The tree with the listing of the directory at a location changed. -/
def relist (g : Listing → Listing) : Location → Entry → Entry
  | [], dir es => dir (g es)
  | n :: place, dir es =>
    match Listing.find? es n with
    | some e => dir (Listing.set es n (relist g place e))
    | none => dir es
  | _, e => e

theorem relist_cons_some (g : Listing → Listing) {es : Listing} {n : String} {e : Entry}
    (h : Listing.find? es n = some e) (place : Location) :
    relist g (n :: place) (dir es) = dir (Listing.set es n (relist g place e)) := by
  simp [relist, h]

theorem put_concat (new : Entry) (place : Location) (n : String) (root : Entry) :
    put new (place ++ [n]) root = relist (fun es => Listing.set es n new) place root := by
  induction place generalizing root with
  | nil => cases root <;> simp [put, relist]
  | cons m place ih =>
    obtain ⟨k, rest, hrest⟩ := List.exists_cons_of_ne_nil (show place ++ [n] ≠ [] by simp)
    cases root with
    | dir es =>
      rw [List.cons_append, hrest, put, ← hrest]
      · cases h : Listing.find? es m <;> simp [relist, h, ih]
      · simp
    | file mode c => rw [List.cons_append, hrest]; simp [put, relist]
    | link t => rw [List.cons_append, hrest]; simp [put, relist]

theorem erase_concat (place : Location) (n : String) (root : Entry) :
    erase (place ++ [n]) root = relist (fun es => Listing.erase es n) place root := by
  induction place generalizing root with
  | nil => cases root <;> simp [erase, relist]
  | cons m place ih =>
    obtain ⟨k, rest, hrest⟩ := List.exists_cons_of_ne_nil (show place ++ [n] ≠ [] by simp)
    cases root with
    | dir es =>
      rw [List.cons_append, hrest, erase, ← hrest]
      · cases h : Listing.find? es m <;> simp [relist, h, ih]
      · simp
    | file mode c => rw [List.cons_append, hrest]; simp [erase, relist]
    | link t => rw [List.cons_append, hrest]; simp [erase, relist]

theorem relist_relist (g h : Listing → Listing) (place : Location) (root : Entry) :
    relist g place (relist h place root) = relist (g ∘ h) place root := by
  induction place generalizing root with
  | nil => cases root <;> rfl
  | cons n place ih =>
    cases root with
    | dir es =>
      cases hfind : Listing.find? es n with
      | none => simp [relist, hfind]
      | some e =>
        rw [relist_cons_some h hfind, relist_cons_some (g ∘ h) hfind,
          relist_cons_some g (Listing.find?_set_self es n _), Listing.set_set, ih]
    | file m c => rfl
    | link t => rfl

theorem relist_congr {g h : Listing → Listing} {place : Location} {root : Entry}
    (heq : ∀ es, root.at? place = some (.dir es) → g es = h es) :
    relist g place root = relist h place root := by
  induction place generalizing root with
  | nil =>
    cases root with
    | dir es => simp [relist, heq es rfl]
    | file m c => rfl
    | link t => rfl
  | cons n place ih =>
    cases root with
    | dir es =>
      cases hfind : Listing.find? es n with
      | none => simp [relist, hfind]
      | some e =>
        rw [relist_cons_some g hfind, relist_cons_some h hfind, ih fun fs hfs => heq fs ?_]
        rw [at?_cons_dir, hfind, Option.bind_some, hfs]
    | file m c => rfl
    | link t => rfl

/-- A change that leaves the listing as it is leaves the tree as it is. -/
theorem relist_eq_self {g : Listing → Listing} {place : Location} {root : Entry}
    (h : ∀ es, root.at? place = some (.dir es) → g es = es) : relist g place root = root := by
  induction place generalizing root with
  | nil =>
    cases root with
    | dir es => simp [relist, h es rfl]
    | file m c => rfl
    | link t => rfl
  | cons n place ih =>
    cases root with
    | dir es =>
      cases hfind : Listing.find? es n with
      | none => simp [relist, hfind]
      | some e =>
        have hsub : relist g place e = e := ih fun fs hfs => h fs (by
          rw [at?_cons_dir, hfind, Option.bind_some, hfs])
        rw [relist_cons_some g hfind, hsub, Listing.set_eq_self hfind]
    | file m c => rfl
    | link t => rfl

theorem at?_relist (g : Listing → Listing) {place : Location} {root : Entry} {es : Listing}
    (h : root.at? place = some (.dir es)) : (relist g place root).at? place = some (.dir (g es)) := by
  induction place generalizing root with
  | nil =>
    cases root with
    | dir fs =>
      obtain rfl : fs = es := by simpa [at?] using h
      rfl
    | file m c => simp [at?] at h
    | link t => simp [at?] at h
  | cons n place ih =>
    cases root with
    | dir fs =>
      rw [at?_cons_dir] at h
      obtain ⟨e, hfind, he⟩ := Option.bind_eq_some_iff.mp h
      rw [relist_cons_some g hfind, at?_cons_dir, Listing.find?_set_self, Option.bind_some, ih he]
    | file m c => simp [at?] at h
    | link t => simp [at?] at h

section Put

variable {root new : Entry} {place : Location} {es : Listing} {n : String}

theorem at?_put_self (h : root.at? place = some (.dir es)) (n : String) (new : Entry) :
    (put new (place ++ [n]) root).at? (place ++ [n]) = some new := by
  rw [put_concat, at?_concat (at?_relist _ h), Listing.find?_set_self]

theorem at?_put_holder (h : root.at? place = some (.dir es)) :
    (put new (place ++ [n]) root).at? place = some (.dir (Listing.set es n new)) := by
  rw [put_concat, at?_relist _ h]

/-- Of two entries put at one location the second stays. -/
theorem put_put (old : Entry) : put new (place ++ [n]) (put old (place ++ [n]) root) =
    put new (place ++ [n]) root := by
  rw [put_concat, put_concat, put_concat, relist_relist]
  exact relist_congr fun es _ => Listing.set_set es n old new

/-- Taking away what was put at a free location gives the old tree. -/
theorem erase_put (h : root.at? (place ++ [n]) = none) :
    erase (place ++ [n]) (put new (place ++ [n]) root) = root := by
  rw [erase_concat, put_concat, relist_relist]
  exact relist_eq_self fun es hes =>
    Listing.erase_set_of_find?_none (by rw [← at?_concat hes, h]) new

end Put

/-! ## Faces -/

end Entry

/-- What an entry shows from outside: a file its content, a directory its names. -/
inductive Face where
  | file (mode : Nat) (content : Text)
  | link (target : String)
  | dir (names : List String)
  deriving DecidableEq, Repr

namespace Entry

/-- The face of an entry. -/
def face : Entry → Face
  | file m c => .file m c
  | link t => .link t
  | dir es => .dir (es.map Prod.fst)

theorem face_eq_file {e : Entry} {m : Nat} {c : Text} (h : e.face = .file m c) : e = .file m c := by
  cases e with
  | file => simpa [face] using h
  | _ => simp [face] at h

theorem map_face_eq_file {o : Option Entry} {m : Nat} {c : Text} (h : o.map face = some (.file m c)) :
    o = some (.file m c) := by
  obtain ⟨e, rfl, he⟩ := Option.map_eq_some_iff.mp h
  rw [face_eq_file he]

/-- **Putting an entry changes no face but those of its own location and of its directory**; what stood at
or below its location is not asked for. -/
theorem face_at?_put {root new : Entry} {place l : Location} {n : String}
    (hholder : l ≠ place) (hbelow : ¬ place ++ [n] <+: l) :
    ((put new (place ++ [n]) root).at? l).map face = (root.at? l).map face := by
  rw [put_concat]
  induction place generalizing root l with
  | nil =>
    obtain ⟨m, l, rfl⟩ := List.exists_cons_of_ne_nil hholder
    have hne : m ≠ n := fun h => hbelow ⟨l, by simp [h]⟩
    cases root with
    | dir es => rw [relist, at?_cons_dir, at?_cons_dir, Listing.find?_set_of_ne hne]
    | file => rfl
    | link => rfl
  | cons k place ih =>
    cases root with
    | dir es =>
      cases hfind : Listing.find? es k with
      | none => simp [relist, hfind]
      | some e =>
        rw [relist_cons_some _ hfind]
        cases l with
        | nil => simp [at?, face, Listing.map_fst_set hfind]
        | cons m l =>
          rw [at?_cons_dir, at?_cons_dir]
          by_cases hm : m = k
          · subst hm
            rw [Listing.find?_set_self, hfind, Option.bind_some, Option.bind_some]
            exact ih (fun h => hholder (by rw [h])) fun h => hbelow (by simpa using h)
          · rw [Listing.find?_set_of_ne hm]
    | file => rfl
    | link => rfl

/-- Nothing stands below a file or a link. -/
theorem at?_append_eq_none {root : Entry} {place rest : Location} {e : Entry}
    (h : root.at? place = some e) (hdir : e.isDir = false) (hrest : rest ≠ []) :
    root.at? (place ++ rest) = none := by
  obtain ⟨n, rest, rfl⟩ := List.exists_cons_of_ne_nil hrest
  rw [at?_append, h, Option.bind_some]
  cases e with
  | dir => simp [isDir] at hdir
  | file => rfl
  | link => rfl

/-- A file in the place of another entry that is no directory: no other face changes. -/
theorem face_at?_put_file {root new old : Entry} {place l : Location} {n : String}
    (hold : root.at? (place ++ [n]) = some old) (holdDir : old.isDir = false)
    (hnewDir : new.isDir = false) (hl : l ≠ place ++ [n]) :
    ((put new (place ++ [n]) root).at? l).map face = (root.at? l).map face := by
  obtain ⟨es, hes⟩ := exists_dir_of_at?_concat hold
  by_cases hbelow : place ++ [n] <+: l
  · obtain ⟨rest, rfl⟩ := hbelow
    have hrest : rest ≠ [] := fun h => hl (by simp [h])
    rw [at?_append_eq_none (at?_put_self hes _ _) hnewDir hrest, at?_append_eq_none hold holdDir hrest]
  · by_cases hholder : l = place
    · rw [hholder, at?_put_holder hes, hes]
      simp [face, Listing.map_fst_set (show Listing.find? es n = some old by rw [← at?_concat hes, hold])]
    · exact face_at?_put hholder hbelow

/-! ## Counting entries -/

mutual

theorem length_inside (e : Entry) : (inside e).length + 1 = e.size := by
  cases e with
  | file => rfl
  | link => rfl
  | dir es => rw [inside, size, length_insides es, Nat.add_comm]
termination_by structural e

theorem length_insides (es : Listing) : (insides es).length = sizes es := by
  cases es with
  | nil => rfl
  | cons p es =>
    obtain ⟨n, e⟩ := p
    have hhead := length_inside e
    have hrest := length_insides es
    simp only [insides, sizes, List.length_cons, List.length_append, List.length_map]
    omega
termination_by structural es

end

theorem mem_insides_of_find? {es : Listing} {n : String} {e : Entry} (h : Listing.find? es n = some e) :
    ([n], e) ∈ insides es ∧ ∀ p ∈ inside e, (n :: p.1, p.2) ∈ insides es := by
  induction es with
  | nil => simp [Listing.find?] at h
  | cons q es ih =>
    obtain ⟨m, x⟩ := q
    rw [Listing.find?_cons] at h
    by_cases hn : n = m
    · rw [if_pos hn] at h
      obtain rfl := Option.some.inj h
      subst hn
      refine ⟨by simp [insides], fun p hp => ?_⟩
      rw [insides]
      exact List.mem_cons_of_mem _ (List.mem_append_left _ (List.mem_map.mpr ⟨p, hp, rfl⟩))
    · rw [if_neg hn] at h
      obtain ⟨hself, hbelow⟩ := ih h
      rw [insides]
      exact ⟨List.mem_cons_of_mem _ (List.mem_append_right _ hself),
        fun p hp => List.mem_cons_of_mem _ (List.mem_append_right _ (hbelow p hp))⟩

/-- Whatever stands at a location below the root is inside it. -/
theorem mem_inside_of_at? {root e : Entry} {l : Location} (h : root.at? l = some e) (hl : l ≠ []) :
    (l, e) ∈ inside root := by
  induction l generalizing root with
  | nil => exact absurd rfl hl
  | cons n l ih =>
    cases root with
    | file => simp [at?] at h
    | link => simp [at?] at h
    | dir es =>
      rw [at?_cons_dir] at h
      obtain ⟨x, hfind, hx⟩ := Option.bind_eq_some_iff.mp h
      obtain ⟨hself, hbelow⟩ := mem_insides_of_find? hfind
      rw [inside]
      cases l with
      | nil =>
        obtain rfl : x = e := by cases x <;> simpa [at?] using hx
        exact hself
      | cons m l => exact hbelow _ (ih hx (by simp))

/-- **Different locations with an entry are no more than the tree has entries.** -/
theorem length_le_size {root : Entry} {ls : List Location} (hnodup : ls.Nodup)
    (h : ∀ l ∈ ls, (root.at? l).isSome) : ls.length ≤ root.size := by
  have hsub : ls ⊆ [] :: (inside root).map Prod.fst := by
    intro l hl
    obtain ⟨e, he⟩ := Option.isSome_iff_exists.mp (h l hl)
    by_cases hnil : l = []
    · simp [hnil]
    · exact List.mem_cons_of_mem _ (List.mem_map.mpr ⟨_, mem_inside_of_at? he hnil, rfl⟩)
  calc ls.length ≤ ([] :: (inside root).map Prod.fst).length :=
        (hnodup.subperm hsub).length_le
    _ = root.size := by rw [List.length_cons, List.length_map, length_inside]

end Entry

end Stopwatch
