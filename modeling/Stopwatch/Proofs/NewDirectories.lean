import Mathlib
import Stopwatch.Proofs.AtomicWrites

/-!
# Directories made on the way

Making a directory with those above it adds empty directories along its path and changes nothing else, whether it
comes to its end or not.

* `Disk.Extended`: that, kept from one new directory to the next (`Disk.Extended.trans`), so paths lead where they
  led (`Disk.Extended.locate`).
* `Disk.ensureDirs_extended` and `Disk.isDir_of_ensureDirs`: what is left after it, and what a success means.
-/

namespace Stopwatch

namespace Disk

variable {d made d' : Disk} {p q : Path} {denied : Denials}

/-- The disk `made` has what `d` has, and new directories that leading parts of the path `p` name. -/
structure Extended (d : Disk) (p : Path) (made : Disk) : Prop where
  /-- Files and links are the same. -/
  leaves : ∀ l e, e.isDir = false → (made.root.at? l = some e ↔ d.root.at? l = some e)
  /-- No directory is gone. -/
  dirs : ∀ l, d.DirAt l → made.DirAt l
  /-- A new directory stands on the way, where nothing stood. -/
  new : ∀ l, made.DirAt l → d.DirAt l ∨
    d.root.at? l = none ∧ ∃ names, names <+: p.names ∧ made.slot? ⟨p.absolute, names⟩ = some l
  cwd : made.cwd = d.cwd
  stamp : made.stamp = d.stamp

theorem startOf_eq (h : d'.cwd = d.cwd) (p : Path) : d'.startOf p = d.startOf p := by
  unfold startOf
  rw [h]

namespace Extended

theorem refl (d : Disk) (p : Path) : d.Extended p d :=
  ⟨fun _ _ _ => Iff.rfl, fun _ => id, fun _ => .inl, rfl, rfl⟩

/-- What stood somewhere still does; only directories may hold more. -/
theorem alike (h : d.Extended p made) {l : Location} {e : Entry} (he : d.root.at? l = some e) :
    ∃ e', made.root.at? l = some e' ∧ Entry.Alike e e' := by
  cases e with
  | file m c => exact ⟨_, (h.leaves l _ rfl).mpr he, .file m m c c⟩
  | link t => exact ⟨_, (h.leaves l _ rfl).mpr he, .link t⟩
  | dir es =>
    obtain ⟨es', hes'⟩ := h.dirs l ⟨es, he⟩
    exact ⟨_, hes', .dir es es'⟩

/-- Where nothing stands, nothing stood. -/
theorem free (h : d.Extended p made) {l : Location} (hl : made.root.at? l = none) : d.root.at? l = none := by
  by_contra hthere
  obtain ⟨e, he⟩ := Option.ne_none_iff_exists'.mp hthere
  obtain ⟨e', he', -⟩ := h.alike he
  rw [hl] at he'
  cases he'

/-- Paths lead where they led. -/
theorem locate (h : d.Extended p made) {place : Location} (hq : d.locate true q = .ok place) :
    made.locate true q = .ok place := by
  obtain ⟨k, hk, hleads⟩ := locate_iff.mp hq
  refine locate_iff.mpr ⟨k, hk, ?_⟩
  rw [startOf_eq h.cwd]
  exact hleads.mono fun _ _ => h.alike

/-- Paths name the entries that they named. -/
theorem slot? (h : d.Extended p made) {l : Location} (hq : d.slot? q = some l) : made.slot? q = some l := by
  obtain ⟨holder, n, hholder, hname, rfl⟩ := slot?_eq_some.mp hq
  obtain ⟨hparent, hdir⟩ := holder_ok hholder
  obtain ⟨es, hes⟩ := h.dirs _ hdir
  exact slot?_eq_some.mpr ⟨holder, n, holder_eq (h.locate hparent) hes, hname, rfl⟩

/-- First the directories along a leading part of the path, then those along the whole of it. -/
theorem trans (h : d.Extended q made) (h' : made.Extended p d') (habs : q.absolute = p.absolute)
    (hnames : q.names <+: p.names) : d.Extended p d' where
  leaves l e he := (h'.leaves l e he).trans (h.leaves l e he)
  dirs l hl := h'.dirs l (h.dirs l hl)
  new l hl := by
    rcases h'.new l hl with hmade | ⟨hfree, names, hpart, hslot⟩
    · rcases h.new l hmade with hold | ⟨hfree, names, hpart, hslot⟩
      · exact .inl hold
      · exact .inr ⟨hfree, names, hpart.trans hnames, habs ▸ h'.slot? hslot⟩
    · exact .inr ⟨h.free hfree, names, hpart, hslot⟩
  cwd := h'.cwd.trans h.cwd
  stamp := h'.stamp.trans h.stamp

end Extended

/-! ## One directory -/

section Put

variable {holder l : Location} {n : String} {es : Listing}

/-- A new directory in a free place changes no other face but that of the directory that holds it. -/
theorem face_put_dir (hes : d.root.at? holder = some (.dir es)) (hfree : d.root.at? (holder ++ [n]) = none)
    (hl : l ≠ holder ++ [n]) (hne : l ≠ holder) :
    ((d.put (holder ++ [n]) (.dir [])).root.at? l).map Entry.face = (d.root.at? l).map Entry.face := by
  by_cases hbelow : holder ++ [n] <+: l
  · -- Nothing stood below the new directory, and nothing does.
    obtain ⟨rest, rfl⟩ := hbelow
    have hrest : rest ≠ [] := fun hnil => hl (by simp [hnil])
    obtain ⟨m, rest, rfl⟩ := List.exists_cons_of_ne_nil hrest
    rw [root_put, Entry.at?_append, Entry.at?_put_self hes, Entry.at?_append, hfree]
    rfl
  · exact Entry.face_at?_put hne hbelow

/-- **A new directory in a free place** is all that is new. -/
theorem extended_put (hholder : d.holder p = .ok holder) (hname : p.ownName? = some n)
    (hfree : d.root.at? (holder ++ [n]) = none) : d.Extended p (d.put (holder ++ [n]) (.dir [])) := by
  obtain ⟨hparent, es, hes⟩ := holder_ok hholder
  have hself : (d.put (holder ++ [n]) (.dir [])).root.at? (holder ++ [n]) = some (.dir []) :=
    Entry.at?_put_self hes n _
  have hthere : (d.put (holder ++ [n]) (.dir [])).root.at? holder = some (.dir (Listing.set es n (.dir []))) :=
    Entry.at?_put_holder hes
  refine ⟨fun l e he => ?_, fun l hl => ?_, fun l hl => ?_, rfl, rfl⟩
  · by_cases hspot : l = holder ++ [n]
    · rw [hspot, hself, hfree]
      refine iff_of_false ?_ (nomatch ·)
      rintro ⟨⟩
      cases he
    · by_cases hne : l = holder
      · rw [hne, hthere, hes]
        constructor <;> rintro ⟨⟩ <;> cases he
      · have hface := face_put_dir hes hfree hspot hne
        exact ⟨eq_some_of_face hface.symm he, eq_some_of_face hface he⟩
  · obtain ⟨fs, hfs⟩ := hl
    obtain ⟨e', he', hlike⟩ : ∃ e', (d.put (holder ++ [n]) (.dir [])).root.at? l = some e' ∧
        Entry.Alike (.dir fs) e' := Entry.exists_alike_put hes hfree hfs
    cases hlike with
    | dir => exact ⟨_, he'⟩
  · by_cases hspot : l = holder ++ [n]
    · have hnew : (d.put (holder ++ [n]) (.dir [])).holder p = .ok holder :=
        holder_eq (locate_put hparent hes hfree _) hthere
      rw [hspot]
      exact .inr ⟨hfree, p.names, List.prefix_rfl, slot?_eq_some.mpr ⟨holder, n, hnew, hname, rfl⟩⟩
    · by_cases hne : l = holder
      · exact .inl (hne ▸ ⟨es, hes⟩)
      · rw [dirAt_iff, face_put_dir hes hfree hspot hne, ← dirAt_iff] at hl
        exact .inl hl

end Put

/-- A directory was made in a free place. -/
theorem makeDir_ok (h : d.makeDir p denied = .ok made) : ∃ holder n, d.holder p = .ok holder ∧ p.ownName? = some n ∧
    d.root.at? (holder ++ [n]) = none ∧ made = d.put (holder ++ [n]) (.dir []) := by
  unfold makeDir at h
  obtain ⟨-, h⟩ := unlessRefused_eq_ok.mp h
  cases hspot : d.freshSpot p with
  | error f =>
    rw [hspot] at h
    cases h
  | ok spot =>
    rw [hspot] at h
    obtain ⟨holder, n, hholder, hname, rfl, hfree⟩ := freshSpot_ok hspot
    exact ⟨holder, n, hholder, hname, hfree, (Except.ok.inj h).symm⟩

/-- A directory that was made is found by its path. -/
theorem isDir_of_makeDir (h : d.makeDir p denied = .ok made) : made.isDir p = true := by
  obtain ⟨holder, n, hholder, hname, hfree, rfl⟩ := makeDir_ok h
  obtain ⟨hparent, es, hes⟩ := holder_ok hholder
  obtain ⟨hlast, hup⟩ := Option.filter_eq_some_iff.mp hname
  have hp : p = p.parent.child n := by
    obtain ⟨abs, names⟩ := p
    exact congrArg (Path.mk abs) (List.dropLast_append_getLast? n hlast).symm
  have hparent' := locate_put hparent hes hfree (.dir [])
  by_cases hdot : n = "."
  · -- No entry has this name, but a path that ends with it leads to the directory before.
    obtain ⟨k, hk, hleads⟩ := locate_iff.mp hparent'
    have hholder' : (d.put (holder ++ [n]) (.dir [])).root.at? holder = some (.dir (Listing.set es n (.dir []))) :=
      Entry.at?_put_holder hes
    have hstay := hleads.append (.stay hdot hholder' (.done _))
    rw [hp]
    exact isDir_iff.mpr ⟨holder, _, locate_iff.mpr ⟨k, hk, hstay⟩, hholder'⟩
  · have hself := Entry.at?_put_self hes n (.dir [])
    rw [hp]
    exact isDir_iff.mpr ⟨holder ++ [n], _, locate_child hparent' ⟨hdot, by simpa using hup⟩ hself rfl, hself⟩

/-! ## A directory and those above it -/

theorem ensureDir_extended (d : Disk) (p : Path) (denied : Denials) : d.Extended p (d.ensureDir p denied).1 := by
  unfold ensureDir
  cases hmake : d.makeDir p denied with
  | ok made =>
    obtain ⟨holder, n, hholder, hname, hfree, rfl⟩ := makeDir_ok hmake
    exact extended_put hholder hname hfree
  | error f =>
    dsimp only
    split_ifs
    · exact .refl d p
    · exact .refl d p

theorem isDir_of_ensureDir (h : d.ensureDir p denied = (made, .ok ())) : made.isDir p = true := by
  unfold ensureDir at h
  cases hmake : d.makeDir p denied with
  | ok made' =>
    rw [hmake] at h
    obtain ⟨rfl, -⟩ := Prod.mk.inj h
    exact isDir_of_makeDir hmake
  | error f =>
    rw [hmake] at h
    dsimp only at h
    split_ifs at h with hthere
    · obtain ⟨rfl, -⟩ := Prod.mk.inj h
      exact (Bool.and_eq_true_iff.mp hthere).2
    · cases h

/-- The last step makes one directory, on a disk that the steps before extended. -/
theorem ensureDirsAux_spec (denied : Denials) (n : Nat) (d : Disk) (p : Path) :
    d.Extended p (ensureDirsAux denied n d p).1 ∧
      ∀ made, ensureDirsAux denied n d p = (made, .ok ()) → made.isDir p = true := by
  induction n generalizing d p with
  | zero => exact ⟨ensureDir_extended d p denied, fun _ => isDir_of_ensureDir⟩
  | succ n ih =>
    unfold ensureDirsAux
    split
    · obtain ⟨hparent, -⟩ := ih d p.parent
      split
      · next made heq =>
        rw [heq] at hparent
        exact ⟨hparent.trans (ensureDir_extended made p denied) rfl (List.dropLast_prefix _), fun _ => isDir_of_ensureDir⟩
      · next heq =>
        refine ⟨hparent.trans (.refl _ p) rfl (List.dropLast_prefix _), fun made hmade => absurd hmade ?_⟩
        exact heq made
    · exact ⟨ensureDir_extended d p denied, fun _ => isDir_of_ensureDir⟩

/-- **Making a directory with those above it** adds directories along its path and changes nothing else, whether it
fails or not. -/
theorem ensureDirs_extended (d : Disk) (p : Path) (denied : Denials) : d.Extended p (d.ensureDirs p denied).1 :=
  (ensureDirsAux_spec denied _ d p).1

theorem isDir_of_ensureDirs (h : d.ensureDirs p denied = (made, .ok ())) : made.isDir p = true :=
  (ensureDirsAux_spec denied _ d p).2 made h

end Disk

end Stopwatch
