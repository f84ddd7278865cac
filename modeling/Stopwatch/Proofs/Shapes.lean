import Mathlib
import Stopwatch.Proofs.Replacing
import Stopwatch.Run.Batch

/-!
# Disks of one shape

Two disks have the same shape when they differ in the content of files at most, permission bits included.
Finding entries, walking and making temporary files depend on the shape alone, so none of them notices
that a file was rewritten.

* `Disk.SameShape`, kept by rewriting a file: `Disk.SameShape.of_put`.
* `Walk.step_congr`: a walk takes the same steps.
-/

namespace Stopwatch

/-- What an entry shows from outside, the content of a file apart. -/
def Entry.outline (e : Entry) : Face :=
  match e.face with
  | .file .. => .file 0 []
  | f => f

/-- The disks differ in the content of files at most. -/
structure Disk.SameShape (d d' : Disk) : Prop where
  cwd : d'.cwd = d.cwd
  stamp : d'.stamp = d.stamp
  outline : ∀ l, (d'.root.at? l).map Entry.outline = (d.root.at? l).map Entry.outline

namespace Entry

/-- Entries of one outline, or none. -/
theorem outline_cases {o o' : Option Entry} (h : o'.map outline = o.map outline) :
    (o = none ∧ o' = none) ∨
      (∃ m c m' c', o = some (.file m c) ∧ o' = some (.file m' c')) ∨
      (∃ t, o = some (.link t) ∧ o' = some (.link t)) ∨
      ∃ es es', o = some (.dir es) ∧ o' = some (.dir es') ∧ es'.map Prod.fst = es.map Prod.fst := by
  cases o with
  | none => exact Or.inl ⟨rfl, Option.map_eq_none_iff.mp h⟩
  | some e =>
    obtain ⟨e', rfl, he⟩ := Option.map_eq_some_iff.mp h
    cases e <;> cases e' <;>
      simp only [outline, face, reduceCtorEq, Face.link.injEq, Face.dir.injEq] at he
    · exact Or.inr (Or.inl ⟨_, _, _, _, rfl, rfl⟩)
    · exact Or.inr (Or.inr (Or.inl ⟨_, rfl, by rw [he]⟩))
    · exact Or.inr (Or.inr (Or.inr ⟨_, _, rfl, rfl, he⟩))

theorem map_outline_of_face {o o' : Option Entry} (h : o'.map face = o.map face) :
    o'.map outline = o.map outline := by
  have hsplit : ∀ x : Option Entry, x.map outline = (x.map face).map fun
      | .file .. => .file 0 []
      | f => f := fun x => by cases x <;> rfl
  rw [hsplit, hsplit, h]

theorem follow_congr {root root' : Entry}
    (h : ∀ l, (root'.at? l).map outline = (root.at? l).map outline) (place : Location)
    (names : List String) : root'.follow place names = root.follow place names := by
  induction names generalizing place with
  | nil => rfl
  | cons n rest ih =>
    rw [follow, follow]
    obtain ⟨ho, ho'⟩ | ⟨m, c, m', c', ho, ho'⟩ | ⟨t, ho, ho'⟩ | ⟨es, es', ho, ho', -⟩ :=
      outline_cases (h place)
    · rw [ho, ho']
    · rw [ho, ho']
    · rw [ho, ho']
    · rw [ho, ho']
      simp only [ih]
      have hentry := h (place ++ [n])
      rw [at?_concat ho, at?_concat ho'] at hentry
      obtain ⟨hf, hf'⟩ | ⟨m, c, m', c', hf, hf'⟩ | ⟨t, hf, hf'⟩ | ⟨fs, fs', hf, hf', -⟩ :=
        outline_cases hentry <;> rw [hf, hf']

end Entry

namespace Disk.SameShape

variable {d d' : Disk}

theorem refl (d : Disk) : d.SameShape d := ⟨rfl, rfl, fun _ => rfl⟩

theorem trans {d'' : Disk} (h : d.SameShape d') (h' : d'.SameShape d'') : d.SameShape d'' :=
  ⟨h'.cwd.trans h.cwd, h'.stamp.trans h.stamp, fun l => (h'.outline l).trans (h.outline l)⟩

/-- Rewriting a file keeps the shape, and the face of everything else. -/
theorem face_put_file {place l : Location} {m : Nat} {c : Text}
    (hfile : d.root.at? place = some (.file m c)) (hl : l ≠ place) (m' : Nat) (c' : Text) :
    ((d.put place (.file m' c')).root.at? l).map Entry.face = (d.root.at? l).map Entry.face := by
  rcases List.eq_nil_or_concat place with rfl | ⟨front, n, rfl⟩
  · -- The root itself is the file, so nothing else is there.
    have hroot : d.root = .file m c := by cases hd : d.root <;> simp_all [Entry.at?]
    obtain ⟨k, l, rfl⟩ := List.exists_cons_of_ne_nil hl
    simp [hroot, Entry.put, Entry.at?]
  · rw [List.concat_eq_append] at hfile hl ⊢
    exact Entry.face_at?_put_file hfile rfl rfl hl

theorem of_put {place : Location} {m : Nat} {c : Text} (hfile : d.root.at? place = some (.file m c))
    (m' : Nat) (c' : Text) : d.SameShape (d.put place (.file m' c')) where
  cwd := rfl
  stamp := rfl
  outline l := by
    by_cases hl : l = place
    · rw [hl, at?_put_file hfile, hfile]
      rfl
    · exact Entry.map_outline_of_face (face_put_file hfile hl m' c')

variable (h : d.SameShape d')

include h

theorem standing (hd : d.Standing) : d'.Standing := by
  unfold Standing
  rw [h.cwd]
  exact hd

theorem locateFrom (last : Bool) (links : Nat) (place : Location) (names : List String) :
    d'.locateFrom last links place names = d.locateFrom last links place names := by
  induction links generalizing place names with
  | zero =>
    rw [Disk.locateFrom, Disk.locateFrom, Entry.follow_congr h.outline]
  | succ links ih =>
    rw [Disk.locateFrom, Disk.locateFrom, Entry.follow_congr h.outline]
    simp only [ih]

theorem startOf (p : Path) : d'.startOf p = d.startOf p := by
  simp only [Disk.startOf, h.cwd]

theorem locate (last : Bool) (p : Path) : d'.locate last p = d.locate last p := by
  rw [Disk.locate, Disk.locate, h.locateFrom, h.startOf]

theorem isLink (p : Path) : d'.isLink p = d.isLink p := by
  unfold Disk.isLink lstat entryAt
  rw [h.locate]
  cases d.locate false p with
  | error => rfl
  | ok place =>
    simp only [Except.bind]
    obtain ⟨ho, ho'⟩ | ⟨m, c, m', c', ho, ho'⟩ | ⟨t, ho, ho'⟩ | ⟨es, es', ho, ho', -⟩ :=
      Entry.outline_cases (h.outline place) <;> rw [ho, ho'] <;> rfl

theorem isDir (p : Path) : d'.isDir p = d.isDir p := by
  unfold Disk.isDir stat entryAt
  rw [h.locate]
  cases d.locate true p with
  | error => rfl
  | ok place =>
    simp only [Except.bind]
    obtain ⟨ho, ho'⟩ | ⟨m, c, m', c', ho, ho'⟩ | ⟨t, ho, ho'⟩ | ⟨es, es', ho, ho', -⟩ :=
      Entry.outline_cases (h.outline place) <;> rw [ho, ho'] <;> rfl

theorem isFile (p : Path) : d'.isFile p = d.isFile p := by
  unfold Disk.isFile stat entryAt
  rw [h.locate]
  cases d.locate true p with
  | error => rfl
  | ok place =>
    simp only [Except.bind]
    obtain ⟨ho, ho'⟩ | ⟨m, c, m', c', ho, ho'⟩ | ⟨t, ho, ho'⟩ | ⟨es, es', ho, ho', -⟩ :=
      Entry.outline_cases (h.outline place) <;> rw [ho, ho'] <;> rfl

theorem list (p : Path) : d'.list p = d.list p := by
  unfold Disk.list stat entryAt
  rw [h.locate]
  cases d.locate true p with
  | error => rfl
  | ok place =>
    simp only [Except.bind]
    obtain ⟨ho, ho'⟩ | ⟨m, c, m', c', ho, ho'⟩ | ⟨t, ho, ho'⟩ | ⟨es, es', ho, ho', hnames⟩ :=
      Entry.outline_cases (h.outline place) <;> rw [ho, ho']
    simp only [Listing.sortedNames, hnames]

theorem freshSpot (p : Path) : d'.freshSpot p = d.freshSpot p := by
  have hholder : d'.holder p = d.holder p := by
    unfold holder
    rw [h.locate]
    cases d.locate true p.parent with
    | error => rfl
    | ok place =>
      obtain ⟨ho, ho'⟩ | ⟨m, c, m', c', ho, ho'⟩ | ⟨t, ho, ho'⟩ | ⟨es, es', ho, ho', -⟩ :=
        Entry.outline_cases (h.outline place) <;> simp only [ho, ho']
  unfold Disk.freshSpot
  rw [hholder]
  cases d.holder p with
  | error => rfl
  | ok place =>
    cases p.ownName? with
    | none => rfl
    | some n =>
      obtain ⟨ho, ho'⟩ | ⟨m, c, m', c', ho, ho'⟩ | ⟨t, ho, ho'⟩ | ⟨es, es', ho, ho', -⟩ :=
        Entry.outline_cases (h.outline (place ++ [n])) <;> simp only [ho, ho']

theorem temporary (p : Path) : d'.temporary p = d.temporary p := by
  simp only [Disk.temporary, lexical, h.startOf, h.stamp]

end Disk.SameShape

/-! ## Walking -/

namespace Walk

variable {d d' : Disk}

/-- **A walk takes the same steps on disks of one shape.** -/
theorem step_congr (h : d.SameShape d') (s : Settings) (paths : List Path) (denied : Denials) :
    step d' s paths denied = step d s paths denied := by
  cases paths with
  | nil => rfl
  | cons p rest => simp only [step, entries, h.isLink, h.isFile, h.isDir, h.list]

end Walk

end Stopwatch
