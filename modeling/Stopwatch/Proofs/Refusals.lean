import Mathlib
import Stopwatch.Disk.Replace
import Stopwatch.Proofs.Leading

/-!
# Refused steps

The system may refuse any step of a replacement: looking at the old entry, making the temporary file, the
writing, setting the permission bits, the move. What is left then is what was there before.

* `Disk.Spare`: where the temporary file goes. While it is there nothing else is found elsewhere than before,
  so that taking it away, or moving it, gives what it would have given without it.
* `Disk.replaceRefusing_cases`: a replacement leaves the disk as it was, or puts one file in the place that
  the path names.
-/

namespace Stopwatch

namespace Disk

variable {d : Disk} {holder place : Location} {es : Listing} {n : String} {names : List String}

/-! ## Single operations -/

/-- The name of the temporary file for a name. -/
def temporaryName (d : Disk) (n : String) : String := "." ++ n ++ "." ++ d.stamp ++ ".tmp"

theorem length_temporaryName (d : Disk) (n : String) : n.length + 6 ≤ (d.temporaryName n).length := by
  have hdot : ".".length = 1 := rfl
  have htmp : ".tmp".length = 4 := rfl
  simp only [temporaryName, String.length_append]
  omega

theorem plain_temporaryName (d : Disk) (n : String) : Path.Plain (d.temporaryName n) := by
  have hlen := d.length_temporaryName n
  have hdot : ".".length = 1 := rfl
  have hup : "..".length = 2 := rfl
  exact ⟨fun h => by rw [h] at hlen; omega, fun h => by rw [h] at hlen; omega⟩

theorem holder_eq {p : Path} (hparent : d.locate true p.parent = .ok holder)
    (hholder : d.root.at? holder = some (.dir es)) : d.holder p = .ok holder := by
  simp [Disk.holder, hparent, hholder]

theorem holder_ok {p : Path} (h : d.holder p = .ok holder) :
    d.locate true p.parent = .ok holder ∧ ∃ es, d.root.at? holder = some (.dir es) := by
  unfold Disk.holder at h
  cases hp : d.locate true p.parent with
  | error c => simp [hp] at h
  | ok place =>
    simp only [hp] at h
    split at h
    · next es hes =>
      obtain rfl := Except.ok.inj h
      exact ⟨rfl, es, hes⟩
    · cases h
    · cases h

theorem ownName_concat (front : List String) (hn : Path.Plain n) :
    Path.ownName? ⟨true, front ++ [n]⟩ = some n := by
  simp [Path.ownName?, hn.2]

theorem modify_eq {p : Path} {m : Nat} {c : Text} (h : d.locate true p = .ok place)
    (hfile : d.root.at? place = some (.file m c)) (f : Nat → Text → Entry) :
    d.modify p f = .ok (d.put place (f m c)) := by
  simp [modify, h, hfile]

/-- A path into the directory that its parent leads to. -/
theorem locate_child {p : Path} {e : Entry} (hparent : d.locate true p = .ok holder) (hn : Path.Plain n)
    (he : d.root.at? (holder ++ [n]) = some e) (hlink : e.isLink = false) :
    d.locate true (p.child n) = .ok (holder ++ [n]) := by
  obtain ⟨k, hk, hleads⟩ := locate_iff.mp hparent
  exact locate_iff.mpr ⟨k, hk, hleads.append (.down hn he hlink (.done _))⟩

section Temporary

variable {front : List String} {t : String} {m : Nat} {c : Text}

/-- The directory is found as before beside a new file. -/
theorem locate_put {p : Path} (h : d.locate true p = .ok place)
    (hholder : d.root.at? holder = some (.dir es)) (hfree : d.root.at? (holder ++ [n]) = none)
    (new : Entry) : (d.put (holder ++ [n]) new).locate true p = .ok place := by
  obtain ⟨k, hk, hleads⟩ := locate_iff.mp h
  exact locate_iff.mpr ⟨k, hk, hleads.put hholder hfree⟩

@[simp] theorem root_put (d : Disk) (place : Location) (e : Entry) :
    (d.put place e).root = Entry.put e place d.root := rfl

@[simp] theorem cwd_put (d : Disk) (place : Location) (e : Entry) : (d.put place e).cwd = d.cwd := rfl

@[simp] theorem stamp_put (d : Disk) (place : Location) (e : Entry) : (d.put place e).stamp = d.stamp := rfl

theorem put_put (d : Disk) (holder : Location) (n : String) (old new : Entry) :
    (d.put (holder ++ [n]) old).put (holder ++ [n]) new = d.put (holder ++ [n]) new := by
  simp [put, Entry.put_put]

theorem erase_put (hfree : d.root.at? (holder ++ [n]) = none) (new : Entry) :
    (d.put (holder ++ [n]) new).erase (holder ++ [n]) = d := by
  simp [put, erase, Entry.erase_put hfree]

/-- Changing a new file. -/
theorem modify_put (hparent : d.locate true ⟨true, front⟩ = .ok holder)
    (hholder : d.root.at? holder = some (.dir es)) (hfree : d.root.at? (holder ++ [t]) = none)
    (ht : Path.Plain t) (f : Nat → Text → Entry) :
    (d.put (holder ++ [t]) (.file m c)).modify ⟨true, front ++ [t]⟩ f =
      .ok (d.put (holder ++ [t]) (f m c)) := by
  have hself := Entry.at?_put_self hholder t (.file m c)
  have hlocate : (d.put (holder ++ [t]) (.file m c)).locate true ⟨true, front ++ [t]⟩ = .ok (holder ++ [t]) :=
    locate_child (locate_put hparent hholder hfree (.file m c)) ht hself rfl
  rw [modify_eq hlocate hself, put_put]

/-- Taking a new file away again. -/
theorem discard_put (hparent : d.locate true ⟨true, front⟩ = .ok holder)
    (hholder : d.root.at? holder = some (.dir es)) (hfree : d.root.at? (holder ++ [t]) = none)
    (ht : Path.Plain t) (new : Entry) :
    (d.put (holder ++ [t]) new).discard ⟨true, front ++ [t]⟩ = d := by
  have hplace : (d.put (holder ++ [t]) new).holder ⟨true, front ++ [t]⟩ = .ok holder :=
    holder_eq (by simpa [Path.parent] using locate_put hparent hholder hfree new)
      (Entry.at?_put_holder hholder)
  rw [discard, hplace, ownName_concat front ht]
  exact erase_put hfree new

end Temporary

theorem freshSpot_ok {p : Path} (h : d.freshSpot p = .ok place) :
    ∃ holder n, d.holder p = .ok holder ∧ p.ownName? = some n ∧ place = holder ++ [n] ∧
      d.root.at? place = none := by
  unfold freshSpot at h
  cases hholder : d.holder p with
  | error c => simp [hholder] at h
  | ok holder =>
    cases hname : p.ownName? with
    | none => simp [hholder, hname] at h
    | some n =>
      cases hat : d.root.at? (holder ++ [n]) with
      | some e => simp [hholder, hname, hat] at h
      | none =>
        simp only [hholder, hname, hat, Except.ok.injEq] at h
        exact ⟨holder, n, rfl, rfl, h.symm, h ▸ hat⟩

section

variable {p : Path}

/-! ## Places -/

/-- The location at which a path names an entry, present or not. A link there is not followed. -/
def slot? (d : Disk) (p : Path) : Option Location :=
  match d.holder p, p.ownName? with
  | .ok place, some n => some (place ++ [n])
  | _, _ => none

theorem slot?_eq_some {place : Location} : d.slot? p = some place ↔
    ∃ holder n, d.holder p = .ok holder ∧ p.ownName? = some n ∧ place = holder ++ [n] := by
  unfold slot?
  cases d.holder p with
  | error c => simp
  | ok holder => cases p.ownName? <;> simp [eq_comm]

/-- The entry at a location is a directory. -/
def DirAt (d : Disk) (l : Location) : Prop := ∃ es, d.root.at? l = some (.dir es)

/-- What the disk itself asks for a replacement to come about: the old entry can be looked at, a temporary
file can be made, and the path names a place in a directory, where no directory stands. -/
structure Admits (d : Disk) (p : Path) : Prop where
  mode : ∃ mode, d.modeFor p = .ok mode
  spot : ∃ spot, d.freshSpot (d.temporary p) = .ok spot
  slot : ∃ place, d.slot? p = some place ∧ ¬ d.DirAt place

/-! ## The temporary file -/

/-- The temporary file beside the entry of a path is free to be made: `t` is its name, which is not taken in
the directory `holder` that its path leads into. -/
structure Spare (d : Disk) (p : Path) (front : List String) (holder : Location) (t : String) : Prop where
  path : d.temporary p = ⟨true, front ++ [t]⟩
  name : t = d.temporaryName p.name
  parent : d.locate true ⟨true, front⟩ = .ok holder
  dir : d.DirAt holder
  free : d.root.at? (holder ++ [t]) = none

theorem exists_spare {spot : Location} (h : d.freshSpot (d.temporary p) = .ok spot) :
    ∃ front holder t, d.Spare p front holder t ∧ spot = holder ++ [t] := by
  obtain ⟨holder, n, hholder, hname, rfl, hfree⟩ := freshSpot_ok h
  obtain ⟨hparent, hdir⟩ := holder_ok hholder
  have hpath : d.temporary p = ⟨true, (d.lexical p.parent).names ++ [d.temporaryName p.name]⟩ := rfl
  rw [hpath] at hname hparent
  obtain rfl := Option.some.inj ((ownName_concat _ (d.plain_temporaryName _)).symm.trans hname)
  exact ⟨_, holder, _, ⟨hpath, rfl, by simpa [Path.parent] using hparent, hdir, hfree⟩, rfl⟩

namespace Spare

variable {front : List String} {holder : Location} {t : String} {m : Nat} {c : Text}

theorem plain (h : d.Spare p front holder t) : Path.Plain t := h.name ▸ d.plain_temporaryName _

theorem modify (h : d.Spare p front holder t) (f : Nat → Text → Entry) :
    (d.put (holder ++ [t]) (.file m c)).modify (d.temporary p) f = .ok (d.put (holder ++ [t]) (f m c)) := by
  obtain ⟨es, hes⟩ := h.dir
  rw [h.path]
  exact modify_put h.parent hes h.free h.plain f

theorem discard (h : d.Spare p front holder t) (new : Entry) :
    (d.put (holder ++ [t]) new).discard (d.temporary p) = d := by
  obtain ⟨es, hes⟩ := h.dir
  rw [h.path]
  exact discard_put h.parent hes h.free h.plain new

/-- Writing chunks, by induction on them. -/
theorem appendAll (h : d.Spare p front holder t) (chunks : List Text) :
    (d.put (holder ++ [t]) (.file m c)).appendAll (d.temporary p) chunks =
      .ok (d.put (holder ++ [t]) (.file m (c ++ chunks.flatten))) := by
  induction chunks generalizing c with
  | nil => simp [Disk.appendAll]; rfl
  | cons chunk chunks ih =>
    have hfirst := h.modify (m := m) (c := c) fun mode content => .file mode (content ++ chunk)
    have hrest := ih (c := c ++ chunk)
    rw [Disk.appendAll] at hrest ⊢
    rw [List.foldlM_cons, append, hfirst, List.flatten_cons, ← List.append_assoc]
    exact hrest

/-- The directories are the same as before. -/
theorem dirAt_put (h : d.Spare p front holder t) (m : Nat) (c : Text) (l : Location) :
    (d.put (holder ++ [t]) (.file m c)).DirAt l ↔ d.DirAt l := by
  obtain ⟨es, hes⟩ := h.dir
  constructor
  · rintro ⟨fs, hfs⟩
    have hl : l ≠ holder ++ [t] := fun heq => by
      rw [heq, root_put, Entry.at?_put_self hes] at hfs
      cases hfs
    obtain ⟨e, he, hlike⟩ := Entry.exists_alike_of_put hes rfl hl hfs
    cases hlike with
    | dir => exact ⟨_, he⟩
  · rintro ⟨fs, hfs⟩
    obtain ⟨e, he, hlike⟩ : ∃ e, (d.put (holder ++ [t]) (.file m c)).root.at? l = some e ∧
        Entry.Alike (.dir fs) e := Entry.exists_alike_put hes h.free hfs
    cases hlike with
    | dir => exact ⟨_, he⟩

/-- A path names its entry in the same directory as before. -/
theorem holder_put (h : d.Spare p front holder t) (q : Path) (place : Location) :
    (d.put (holder ++ [t]) (.file m c)).holder q = .ok place ↔ d.holder q = .ok place := by
  obtain ⟨es, hes⟩ := h.dir
  constructor
  · intro hq
    obtain ⟨hparent, fs, hfs⟩ := holder_ok hq
    have hplace : place ≠ holder ++ [t] := fun heq => by
      rw [heq, root_put, Entry.at?_put_self hes] at hfs
      cases hfs
    obtain ⟨k, hk, hleads⟩ := locate_iff.mp hparent
    obtain ⟨gs, hgs⟩ := (h.dirAt_put m c place).mp ⟨fs, hfs⟩
    exact holder_eq (locate_iff.mpr ⟨k, hk, hleads.of_put hes hplace⟩) hgs
  · intro hq
    obtain ⟨hparent, hdir⟩ := holder_ok hq
    obtain ⟨fs, hfs⟩ := (h.dirAt_put m c place).mpr hdir
    exact holder_eq (locate_put hparent hes h.free _) hfs

/-- **The move puts the temporary file in the place that the path names**, unless there is no such place, or
a directory stands there. -/
theorem move (h : d.Spare p front holder t) :
    (∃ place, d.slot? p = some place ∧ ¬ d.DirAt place ∧
      (d.put (holder ++ [t]) (.file m c)).move (d.temporary p) p = .ok (d.put place (.file m c))) ∨
    (∀ place, d.slot? p = some place → d.DirAt place) ∧
      ∃ f, (d.put (holder ++ [t]) (.file m c)).move (d.temporary p) p = .error f := by
  obtain ⟨es, hes⟩ := h.dir
  have hself : (d.put (holder ++ [t]) (.file m c)).root.at? (holder ++ [t]) = some (.file m c) :=
    Entry.at?_put_self hes t _
  have hsource : (d.put (holder ++ [t]) (.file m c)).holder (d.temporary p) = .ok holder :=
    (h.holder_put _ _).mpr (holder_eq (by rw [h.path]; simpa [Path.parent] using h.parent) hes)
  have hown : (d.temporary p).ownName? = some t := by rw [h.path, ownName_concat front h.plain]
  unfold Disk.move
  rw [hsource, hown]
  cases htarget : (d.put (holder ++ [t]) (.file m c)).holder p with
  | error cause =>
    refine .inr ⟨fun place hplace => ?_, _, rfl⟩
    obtain ⟨q, n, hq, -⟩ := slot?_eq_some.mp hplace
    rw [(h.holder_put p q).mpr hq] at htarget
    cases htarget
  | ok q =>
    have hq : d.holder p = .ok q := (h.holder_put p q).mp htarget
    cases hname : p.ownName? with
    | none =>
      refine .inr ⟨fun place hplace => ?_, _, rfl⟩
      obtain ⟨-, n, -, hn, -⟩ := slot?_eq_some.mp hplace
      rw [hname] at hn
      cases hn
    | some n =>
      have hslot : d.slot? p = some (q ++ [n]) := slot?_eq_some.mpr ⟨q, n, hq, hname, rfl⟩
      simp only [hself]
      by_cases hdir : d.DirAt (q ++ [n])
      · obtain ⟨fs, hfs⟩ := (h.dirAt_put m c _).mpr hdir
        rw [hfs]
        refine .inr ⟨fun place hplace => ?_, _, rfl⟩
        obtain rfl := Option.some.inj (hslot.symm.trans hplace)
        exact hdir
      · refine .inl ⟨q ++ [n], hslot, hdir, ?_⟩
        rw [erase_put h.free]
        split
        · next fs hfs => exact absurd ((h.dirAt_put m c _).mp ⟨fs, hfs⟩) hdir
        · rfl

end Spare

/-! ## Replacing -/

/-- Nothing stays of the temporary file when its bits or its move are refused. -/
theorem Spare.installRefusing {front : List String} {holder : Location} {t : String} {m : Nat} {c : Text}
    (h : d.Spare p front holder t) (r : Refusals) (mode : Nat) :
    (∃ e, (d.put (holder ++ [t]) (.file m c)).installRefusing r (d.temporary p) p mode = (d, .error e) ∧
        (r.setMode = none → r.move = none → ∀ place, d.slot? p = some place → d.DirAt place)) ∨
      r.setMode = none ∧ r.move = none ∧ ∃ place, d.slot? p = some place ∧ ¬ d.DirAt place ∧
        (d.put (holder ++ [t]) (.file m c)).installRefusing r (d.temporary p) p mode =
          (d.put place (.file mode c), .ok ()) := by
  unfold Disk.installRefusing
  cases hmode : r.setMode with
  | some f => exact .inl ⟨.fault f, by simp only [unlessRefused_some, h.discard], by simp⟩
  | none =>
    have hset : (d.put (holder ++ [t]) (.file m c)).setMode (d.temporary p) mode =
        .ok (d.put (holder ++ [t]) (.file mode c)) := h.modify fun _ content => .file mode content
    simp only [unlessRefused_none, hset]
    cases hmove : r.move with
    | some f => exact .inl ⟨.fault f, by simp only [unlessRefused_some, h.discard], by simp⟩
    | none =>
      obtain ⟨place, hslot, hdir, hmoved⟩ | ⟨hnone, f, hf⟩ := h.move (m := mode) (c := c)
      · exact .inr ⟨trivial, rfl, place, hslot, hdir, by simp only [unlessRefused_none, hmoved]⟩
      · exact .inl ⟨.fault f, by simp only [unlessRefused_none, hf, h.discard], fun _ _ => hnone⟩

/-- **A replacement leaves the disk as it was, or puts one file in the place that the path names**, and that
whenever nothing is refused and the disk admits it. -/
theorem replaceRefusing_cases (r : Refusals) (d : Disk) (p : Path) (chunks : List Text) :
    (∃ e, d.replaceRefusing r p chunks = (d, .error e) ∧ (r = {} → ¬ d.Admits p)) ∨
      r = {} ∧ d.Admits p ∧ ∃ mode place, d.modeFor p = .ok mode ∧ d.slot? p = some place ∧ ¬ d.DirAt place ∧
        d.replaceRefusing r p chunks = (d.put place (.file mode chunks.flatten), .ok ()) := by
  obtain ⟨inspect, create, write, setMode, move⟩ := r
  unfold replaceRefusing
  cases inspect with
  | some f => exact .inl ⟨.fault f, rfl, by simp⟩
  | none =>
    cases hmode : d.modeFor p with
    | error f =>
      refine .inl ⟨.fault f, rfl, fun _ h => ?_⟩
      obtain ⟨mode, hmode'⟩ := h.mode
      rw [hmode] at hmode'
      cases hmode'
    | ok mode =>
      cases create with
      | some f => exact .inl ⟨.fault f, rfl, by simp⟩
      | none =>
        cases hspot : d.freshSpot (d.temporary p) with
        | error f =>
          refine .inl ⟨.fault f, by simp only [unlessRefused_none, Disk.create, hspot, Except.map], fun _ h => ?_⟩
          obtain ⟨spot, hspot'⟩ := h.spot
          rw [hspot] at hspot'
          cases hspot'
        | ok spot =>
          obtain ⟨front, holder, t, hspare, rfl⟩ := exists_spare hspot
          simp only [unlessRefused_none, Disk.create, hspot, Except.map, hspare.appendAll, List.nil_append]
          cases write with
          | some e => exact .inl ⟨e, by simp only [hspare.discard], by simp⟩
          | none =>
            obtain ⟨e, he, hnone⟩ | ⟨hset, hmove, place, hslot, hdir, hdone⟩ :=
              hspare.installRefusing (m := temporaryMode) (c := chunks.flatten)
                ⟨none, none, none, setMode, move⟩ mode
            · refine .inl ⟨e, he, fun hr h => ?_⟩
              obtain ⟨hset, hmove⟩ : setMode = none ∧ move = none := by simpa using hr
              obtain ⟨place, hslot, hdir⟩ := h.slot
              exact hdir (hnone hset hmove place hslot)
            · obtain rfl : setMode = none := hset
              obtain rfl : move = none := hmove
              exact .inr ⟨rfl, ⟨⟨mode, hmode⟩, ⟨_, hspot⟩, place, hslot, hdir⟩, mode, place, rfl, hslot,
                hdir, hdone⟩

end

end Disk

end Stopwatch
