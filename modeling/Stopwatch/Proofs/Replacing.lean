import Mathlib
import Stopwatch.Proofs.Refusals

/-!
# Replacing a file is one change

The temporary file comes and goes in the directory of the file that is replaced. So what is left of a
replacement is nothing, if it fails, and otherwise one file put in its place.

* `Disk.write_cases`: that, for a write.
* `Disk.write_file`: writing to a path that leads to a file replaces that very file and keeps its
  permission bits. It fails only where no temporary file can be made.
-/

namespace Stopwatch

/-- What keeps a file that is there from being replaced: the first of the steps that is refused, or that there
is no place for a temporary file. -/
def Refusals.obstacle (r : Refusals) (spot : Except Fault Location) : Option WriteError :=
  match unlessRefused r.inspect (unlessRefused r.create spot) with
  | .error f => some (.fault f)
  | .ok _ => r.write.or ((r.setMode.or r.move).map .fault)

/-- What keeps the file at a path from being replaced. -/
def Denials.obstacle (denied : Denials) (p : Path) (spot : Except Fault Location) : Option Fault :=
  match unlessRefused (denied.refuses .inspect p) (unlessRefused (denied.refuses .create p) spot) with
  | .error f => some f
  | .ok _ => (denied.refuses .write p).or ((denied.refuses .setMode p).or (denied.refuses .move p))

theorem Denials.obstacle_refusals (denied : Denials) (p : Path) (spot : Except Fault Location) :
    (denied.refusals p).obstacle spot = (denied.obstacle p spot).map .fault := by
  unfold Refusals.obstacle Denials.obstacle Denials.refusals
  dsimp only
  split
  · rfl
  · simp only [Option.map_or]

namespace Disk

variable {d : Disk} {place : Location} {p : Path} {m : Nat} {old content : Text} {denied : Denials}

/-! ## Replacing -/

/-- A path that spells a location in a directory names it. -/
theorem slot?_self {front : List String} {n : String} (hdir : d.DirAt front)
    (hplain : ∀ k ∈ front ++ [n], Path.Plain k) : d.slot? ⟨true, front ++ [n]⟩ = some (front ++ [n]) := by
  obtain ⟨es, hes⟩ := hdir
  have hfront : d.locate true ⟨true, front⟩ = .ok front :=
    locate_self hes rfl fun k hk => hplain k (by simp [hk])
  refine slot?_eq_some.mpr ⟨front, n, holder_eq ?_ hes, ownName_concat front (hplain n (by simp)), rfl⟩
  rwa [Path.parent, List.dropLast_concat]

/-- The permission bits of a file are those that it had. -/
theorem modeFor_file (hplain : ∀ n ∈ place, Path.Plain n) (hfile : d.root.at? place = some (.file m old)) :
    d.modeFor ⟨true, place⟩ = .ok m := by
  simp [modeFor, stat, locate_self hfile rfl hplain, entryAt, hfile, Except.bind, Entry.mode]

/-- A step that is refused once the temporary file is there. -/
theorem replaceRefusing_of_late {r : Refusals} {spot : Location} {e : WriteError} (hinspect : r.inspect = none)
    (hcreate : r.create = none) (hmode : d.modeFor p = .ok m)
    (hspot : d.freshSpot (d.temporary p) = .ok spot)
    (he : r.write.or ((r.setMode.or r.move).map .fault) = some e) :
    d.replaceRefusing r p [content] = (d, .error e) := by
  obtain ⟨front, holder, t, hspare, rfl⟩ := exists_spare hspot
  unfold replaceRefusing
  simp only [hinspect, hcreate, unlessRefused_none, hmode, create, hspot, Except.map, hspare.appendAll,
    List.nil_append]
  cases hwrite : r.write with
  | some w =>
    obtain rfl : w = e := by simpa [hwrite] using he
    simp only [hspare.discard]
  | none =>
    obtain ⟨f, hf, rfl⟩ : ∃ f, r.setMode.or r.move = some f ∧ .fault f = e := by simpa [hwrite] using he
    unfold installRefusing
    cases hset : r.setMode with
    | some g =>
      obtain rfl : g = f := by simpa [hset] using hf
      simp only [unlessRefused_some, hspare.discard]
    | none =>
      have hmove : r.move = some f := by simpa [hset] using hf
      have hdone : (d.put (holder ++ [t]) (.file temporaryMode [content].flatten)).setMode (d.temporary p) m =
          .ok (d.put (holder ++ [t]) (.file m [content].flatten)) := hspare.modify fun _ c => .file m c
      simp only [unlessRefused_none, hdone, hmove, unlessRefused_some, hspare.discard]

/-- A file at a location is replaced, with its permission bits kept, if a temporary file can be made. -/
theorem replace_file (hplain : ∀ n ∈ place, Path.Plain n)
    (hfile : d.root.at? place = some (.file m old)) (content : Text)
    (hspot : ∃ spot, d.freshSpot (d.temporary ⟨true, place⟩) = .ok spot) :
    d.replaceRefusing {} ⟨true, place⟩ [content] = (d.put place (.file m content), .ok ()) := by
  have hmode := modeFor_file hplain hfile
  obtain ⟨spot, hspot⟩ := hspot
  rcases List.eq_nil_or_concat place with rfl | ⟨front, n, rfl⟩
  · -- Were the root a file, there would be no directory for a temporary one.
    obtain ⟨holder, -, hholder, -⟩ := freshSpot_ok hspot
    obtain ⟨hparent, es, hes⟩ := holder_ok hholder
    have hroot : d.locate true (d.temporary ⟨true, []⟩).parent = .ok [] := rfl
    rw [← Except.ok.inj (hroot.symm.trans hparent), hfile] at hes
    cases hes
  · rw [List.concat_eq_append] at hplain hfile hmode hspot ⊢
    have hslot := slot?_self (Entry.exists_dir_of_at?_concat hfile) hplain
    have hdir : ¬ d.DirAt (front ++ [n]) := by
      rintro ⟨es, hes⟩
      rw [hfile] at hes
      cases hes
    obtain ⟨-, -, hnot⟩ | ⟨-, -, mode, place, hmode', hslot', -, hdone⟩ :=
      replaceRefusing_cases {} d ⟨true, front ++ [n]⟩ [content]
    · exact absurd ⟨⟨m, hmode⟩, ⟨spot, hspot⟩, _, hslot, hdir⟩ (hnot rfl)
    · obtain rfl := Except.ok.inj (hmode.symm.trans hmode')
      obtain rfl := Option.some.inj (hslot.symm.trans hslot')
      rw [List.flatten_singleton] at hdone
      exact hdone

/-- **A file at a location is replaced, or it is told what kept it from that.** Its permission bits are kept. -/
theorem replaceRefusing_file (hplain : ∀ n ∈ place, Path.Plain n)
    (hfile : d.root.at? place = some (.file m old)) (r : Refusals) (content : Text) :
    d.replaceRefusing r ⟨true, place⟩ [content] =
      match r.obstacle (d.freshSpot (d.temporary ⟨true, place⟩)) with
      | none => (d.put place (.file m content), .ok ())
      | some e => (d, .error e) := by
  have hmode := modeFor_file hplain hfile
  cases hinspect : r.inspect with
  | some f => simp only [replaceRefusing, Refusals.obstacle, hinspect, unlessRefused_some]
  | none =>
    cases hcreate : r.create with
    | some f =>
      simp only [replaceRefusing, Refusals.obstacle, hinspect, hcreate, hmode, unlessRefused_none,
        unlessRefused_some]
    | none =>
      cases hspot : d.freshSpot (d.temporary ⟨true, place⟩) with
      | error f =>
        simp only [replaceRefusing, Refusals.obstacle, hinspect, hcreate, hmode, unlessRefused_none, create,
          hspot, Except.map]
      | ok spot =>
        simp only [Refusals.obstacle, hinspect, hcreate, unlessRefused_none]
        cases hlate : r.write.or ((r.setMode.or r.move).map .fault) with
        | some e => exact replaceRefusing_of_late hinspect hcreate hmode hspot hlate
        | none =>
          obtain ⟨hwrite, hset, hmove⟩ : r.write = none ∧ r.setMode = none ∧ r.move = none := by
            simpa using hlate
          obtain rfl : r = {} := by
            cases r
            simp_all
          exact replace_file hplain hfile content ⟨spot, hspot⟩

/-! ## Writing -/

/-- **A write changes nothing, or puts one file in the place of anything but a directory.** -/
theorem write_cases (d : Disk) (p : Path) (content : Text) (denied : Denials) :
    (∃ e, d.write p content denied = (d, .error e)) ∨
      ∃ holder es n mode, d.root.at? holder = some (.dir es) ∧
        (∀ e, d.root.at? (holder ++ [n]) = some e → e.isDir = false) ∧
        d.write p content denied = (d.put (holder ++ [n]) (.file mode content), .ok ()) := by
  rw [write, writeRefusing]
  cases d.resolve p with
  | error circle => exact .inl ⟨_, rfl⟩
  | ok target =>
    obtain ⟨e, he, -⟩ | ⟨-, -, mode, place, -, hslot, hdir, hdone⟩ :=
      replaceRefusing_cases (denied.refusals p) d target [content]
    · exact .inl ⟨e, he⟩
    · obtain ⟨holder, n, hholder, -, rfl⟩ := slot?_eq_some.mp hslot
      obtain ⟨-, es, hes⟩ := holder_ok hholder
      rw [List.flatten_singleton] at hdone
      refine .inr ⟨holder, es, n, mode, hes, fun e he => ?_, hdone⟩
      cases e with
      | dir fs => exact absurd ⟨fs, he⟩ hdir
      | file => rfl
      | link => rfl

/-- **A write to a path that leads to a file** replaces that very file and keeps its permission bits, unless a
step is refused or no temporary file can be made beside it. -/
theorem write_file (hd : d.Standing) (h : d.locate true p = .ok place)
    (hfile : d.root.at? place = some (.file m old)) (content : Text) (denied : Denials) :
    d.write p content denied =
      match denied.obstacle p (d.freshSpot (d.temporary ⟨true, place⟩)) with
      | none => (d.put place (.file m content), .ok ())
      | some f => (d, .error (.fault f)) := by
  rw [write, writeRefusing, resolve_of_locate hd h hfile rfl]
  dsimp only
  rw [replaceRefusing_file (plain_of_locate hd h) hfile, Denials.obstacle_refusals]
  cases denied.obstacle p (d.freshSpot (d.temporary ⟨true, place⟩)) <;> rfl

theorem at?_put_file (hfile : d.root.at? place = some (.file m old)) (e : Entry) :
    (d.put place e).root.at? place = some e := by
  rcases List.eq_nil_or_concat place with rfl | ⟨front, n, rfl⟩
  · cases e <;> rfl
  · rw [List.concat_eq_append] at hfile ⊢
    obtain ⟨es, hes⟩ := Entry.exists_dir_of_at?_concat hfile
    exact Entry.at?_put_self hes _ _

theorem isFile_iff : d.isFile p = true ↔
    ∃ place m c, d.locate true p = .ok place ∧ d.root.at? place = some (.file m c) := by
  unfold isFile stat entryAt
  cases hlocate : d.locate true p with
  | error c => simp [Except.bind]
  | ok place =>
    cases hat : d.root.at? place with
    | none => simp [Except.bind, hat]
    | some e => cases e <;> simp [Except.bind, hat, Entry.isFile]

theorem isDir_iff : d.isDir p = true ↔
    ∃ place es, d.locate true p = .ok place ∧ d.root.at? place = some (.dir es) := by
  unfold isDir stat entryAt
  cases hlocate : d.locate true p with
  | error c => simp [Except.bind]
  | ok place =>
    cases hat : d.root.at? place with
    | none => simp [Except.bind, hat]
    | some e => cases e <;> simp [Except.bind, hat, Entry.isDir]

/-- **What was written is found again**, wherever the path leads to a file then. -/
theorem stat_of_write {d' : Disk} (hd : d.Standing) (h : d.write p content denied = (d', .ok ()))
    (hfile : d'.isFile p = true) : ∃ m, d'.stat p = .ok (.file m content) := by
  obtain ⟨place, m, c, hlocate, hat⟩ := isFile_iff.mp hfile
  suffices hcontent : c = content by
    exact ⟨m, by simp [stat, hlocate, entryAt, hat, Except.bind, hcontent]⟩
  rcases write_cases d p content denied with ⟨e, he⟩ | ⟨holder, es, n, mode, hholder, -, hwrite⟩
  · rw [he] at h
    cases h
  · obtain rfl : d.put (holder ++ [n]) (.file mode content) = d' := by
      rw [hwrite] at h
      exact (Prod.mk.inj h).1
    by_cases hplace : place = holder ++ [n]
    · have hself := Entry.at?_put_self hholder n (.file mode content)
      rw [hplace, root_put, hself] at hat
      exact (Entry.file.inj (Option.some.inj hat)).2.symm
    · -- The path leads elsewhere, so it led there before, and that is where the write went.
      obtain ⟨k, hk, hleads⟩ := locate_iff.mp hlocate
      have hbefore : d.locate true p = .ok place :=
        locate_iff.mpr ⟨k, hk, hleads.of_put hholder hplace⟩
      obtain ⟨e', he', hlike⟩ := Entry.exists_alike_of_put hholder rfl hplace hat
      cases hlike with
      | file _ m' _ c' =>
        have hwrite' := write_file hd hbefore he' content denied
        rw [hwrite] at hwrite'
        split at hwrite'
        · have hself := at?_put_file he' (.file m' content)
          rw [← (Prod.mk.inj hwrite').1, hat] at hself
          exact (Entry.file.inj (Option.some.inj hself)).2
        · simp at hwrite'

end Disk

end Stopwatch
