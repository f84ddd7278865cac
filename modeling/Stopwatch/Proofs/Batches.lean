import Mathlib
import Stopwatch.Proofs.Printable
import Stopwatch.Proofs.Shapes

/-!
# Working off sources

A directory run walks and rewrites in turns. Since rewriting a file keeps the shape of the disk, the walk
finds what it would have found at once (`Batch.workOff_eq`), and the run is a fold over that list. All of it
holds for any sound parser and whatever the system refuses.

* `Walk.found`: what a walk finds at once, as far as the directories can be listed.
* `Disk.instrumentFile_cases`: what the work on one file can be.
* `Batch.Rewritten`: the sources that were done, one after the other, and the disk that they left.
* `Batch.workOn_spec`: a run over a list of sources rewrites a first part of it and stops at the first
  failure.
* `Batch.Rewritten.retimed`: a file is transformed as often as a source leads to it, and nothing else
  changes.
-/

namespace Stopwatch

/-! ## One file -/

/-- The source text `old`, read by a parser, is transformed into `t`. -/
def Settings.Times (s : Settings) (parse : Parser) (old : Text) (t : Transformed) : Prop :=
  ∃ f, SourceFile.ofSource old parse = .ok f ∧ f.transform s = .ok t

namespace Disk

variable {d d' : Disk} {s : Settings} {p : Path} {host : Host}

theorem read_file {place : Location} {m : Nat} {c : Text} (h : d.locate true p = .ok place)
    (hfile : d.root.at? place = some (.file m c)) : d.read p = .ok c := by
  simp [read, stat, h, entryAt, hfile, Except.bind]

/-- What can be read is the content of a file. -/
theorem read_ok {c : Text} (h : d.read p = .ok c) :
    ∃ place m, d.locate true p = .ok place ∧ d.root.at? place = some (.file m c) := by
  unfold read stat entryAt at h
  cases hlocate : d.locate true p with
  | error => simp [hlocate, Except.bind] at h
  | ok place =>
    cases hat : d.root.at? place with
    | none => simp [hlocate, Except.bind, hat] at h
    | some e =>
      cases e with
      | file m c' =>
        simp only [hlocate, Except.bind, hat, Except.ok.injEq] at h
        exact ⟨place, m, rfl, h ▸ hat⟩
      | dir => simp [hlocate, Except.bind, hat] at h
      | link => simp [hlocate, Except.bind, hat] at h

theorem load_ok {f : SourceFile} : d.load p host = .ok f ↔ host.denied.refuses .read p = none ∧
    ∃ c, d.read p = .ok c ∧ SourceFile.ofSource c host.parse = .ok f := by
  unfold load
  cases hrefused : host.denied.refuses .read p with
  | some g => simp
  | none => cases d.read p <;> simp

/-- **The work on a file** stops at a source that cannot be loaded, or where something keeps it from being
replaced; otherwise it puts the transformed text into the file. There is no other way for it to end. -/
theorem instrumentFile_cases (hsound : host.parse.Sound) (hd : d.Standing) (s : Settings) (p : Path) :
    (∃ e, d.load p host = .error e ∧
      d.instrumentFile s p host = { disk := d, result := .error (.work (.load p e)) }) ∨
    ∃ f place m old t, d.load p host = .ok f ∧ f.transform s = .ok t ∧ s.Times host.parse old t ∧
      d.locate true p = .ok place ∧ d.root.at? place = some (.file m old) ∧
      d.instrumentFile s p host =
        match host.denied.obstacle p (d.freshSpot (d.temporary ⟨true, place⟩)) with
        | none =>
          { disk := d.put place (.file m t.text)
            progress := t.progress
            result := .ok ⟨p, t.functions, t.importsAdded⟩ }
        | some fault => { disk := d, progress := t.progress, result := .error (.work (.write p fault)) } := by
  cases hload : d.load p host with
  | error e => exact .inl ⟨e, rfl, by simp [instrumentFile, hload]⟩
  | ok f =>
    right
    obtain ⟨-, old, hread, hsource⟩ := load_ok.mp hload
    obtain ⟨place, m, hplace, hfile⟩ := read_ok hread
    obtain ⟨t, ht⟩ := SourceFile.transform_of_ofSource hsound hsource s
    refine ⟨f, place, m, old, t, rfl, ht, ⟨f, hsource, ht⟩, hplace, hfile, ?_⟩
    rw [instrumentFile, hload]
    simp only [ht, write_file hd hplace hfile]
    cases host.denied.obstacle p (d.freshSpot (d.temporary ⟨true, place⟩)) <;> rfl

/-- The work on a file keeps the shape of the disk. -/
theorem sameShape_instrumentFile (hsound : host.parse.Sound) (hd : d.Standing) (s : Settings) (p : Path) :
    d.SameShape (d.instrumentFile s p host).disk := by
  obtain ⟨e, -, h⟩ | ⟨f, place, m, old, t, -, -, -, hplace, hfile, h⟩ := instrumentFile_cases hsound hd s p
  · rw [h]
    exact .refl d
  · rw [h]
    cases host.denied.obstacle p (d.freshSpot (d.temporary ⟨true, place⟩)) with
    | none => exact .of_put hfile _ _
    | some => exact .refl d

/-- What is read through a path depends on where it leads and on the entry there. -/
theorem read_congr (hlocate : d'.locate true p = d.locate true p)
    (hface : ∀ place, d.locate true p = .ok place →
      (d'.root.at? place).map Entry.face = (d.root.at? place).map Entry.face) : d'.read p = d.read p := by
  unfold read stat entryAt
  rw [hlocate]
  cases hfound : d.locate true p with
  | error => rfl
  | ok place =>
    simp only [Except.bind]
    have hplace := hface place hfound
    cases hat : d.root.at? place with
    | none =>
      rw [hat] at hplace
      rw [Option.map_eq_none_iff.mp hplace]
    | some e =>
      obtain ⟨e', he', hlike⟩ := Entry.exists_alike_of_face hplace hat
      rw [hat, he'] at hplace
      rw [he']
      cases e with
      | file m c => rw [Entry.face_eq_file (Option.some.inj hplace)]
      | dir => cases hlike; rfl
      | link => cases hlike; rfl

/-- What is said about a file depends on the shape of the disk and on the content of that file. -/
theorem instrumentFile_congr (hsound : host.parse.Sound) (hd : d.Standing) (h : d.SameShape d')
    (hface : ∀ place, d.locate true p = .ok place →
      (d'.root.at? place).map Entry.face = (d.root.at? place).map Entry.face) :
    (d'.instrumentFile s p host).result = (d.instrumentFile s p host).result := by
  have hload : d'.load p host = d.load p host := by rw [load, load, read_congr (h.locate true p) hface]
  obtain ⟨e, hloaded, hrun⟩ | ⟨f, place, m, old, t, hloaded, ht, -, hplace, hfile, hrun⟩ :=
    instrumentFile_cases hsound hd s p
  · rw [hrun, instrumentFile, hload, hloaded]
  · have hfile' : d'.root.at? place = some (.file m old) :=
      Entry.map_face_eq_file (by rw [hface place hplace, hfile]; rfl)
    rw [hrun, instrumentFile, hload, hloaded]
    simp only [ht, write_file (h.standing hd) ((h.locate true p).trans hplace) hfile', h.temporary,
      h.freshSpot]
    cases host.denied.obstacle p (d.freshSpot (d.temporary ⟨true, place⟩)) <;> rfl

end Disk

/-- Whether a path leads to a location. -/
def Disk.leadsTo (d : Disk) (l : Location) (p : Path) : Bool := (d.locate true p).toOption == some l

/-! ## A walk at once -/

namespace Walk

/-- The sources that at most `n` steps find, and the directory that stops them, if one cannot be listed. -/
def search (d : Disk) (s : Settings) (denied : Denials) : Nat → List Path → List Path × Option (Path × Cause)
  | 0, _ => ([], none)
  | n + 1, paths =>
    match step d s paths denied with
    | .finished => ([], none)
    | .passed rest => search d s denied n rest
    | .found file rest => (file :: (search d s denied n rest).1, (search d s denied n rest).2)
    | .failed dir cause => ([], some (dir, cause))

/-- The sources below a directory, as far as it can be listed, and what cannot. -/
def found (d : Disk) (s : Settings) (root : Path) (denied : Denials) : List Path × Option (Path × Cause) :=
  match entries d root denied with
  | .error c => ([], some (root, c))
  | .ok paths => search d s denied (bound d) paths

theorem collect_eq_search (d : Disk) (s : Settings) (denied : Denials) (n : Nat) (paths : List Path) :
    collect d s n paths denied =
      match (search d s denied n paths).2 with
      | none => .ok (search d s denied n paths).1
      | some failed => .error failed := by
  induction n generalizing paths with
  | zero => rfl
  | succ n ih =>
    rw [collect, search]
    cases hstep : step d s paths denied with
    | finished => rfl
    | failed dir cause => rfl
    | passed rest => exact ih rest
    | found file rest =>
      dsimp only
      rw [ih rest]
      cases (search d s denied n rest).2 <;> rfl

/-- **The sources below a directory** are all that is found, if every directory can be listed. -/
theorem sourceFiles_eq_ok {d : Disk} {s : Settings} {root : Path} {denied : Denials} {files : List Path} :
    sourceFiles d s root denied = .ok files ↔ found d s root denied = (files, none) := by
  unfold sourceFiles found
  cases entries d root denied with
  | error c => simp
  | ok paths =>
    dsimp only
    rw [collect_eq_search]
    cases hsearch : search d s denied (bound d) paths with
    | mk files' stop => cases stop <;> simp

end Walk

/-! ## Many files -/

/-- `c'` is what `n` transformations one after the other make of the source text `c`. -/
inductive Settings.Retimed (s : Settings) (parse : Parser) : Nat → Text → Text → Prop
  | none (c : Text) : Retimed s parse 0 c c
  | more {n : Nat} {c c' : Text} {t : Transformed} (first : s.Times parse c t)
      (rest : Retimed s parse n t.text c') : Retimed s parse (n + 1) c c'

/-- The failure of a walk at a directory that cannot be listed. -/
def WorkError.unlisted (failed : Path × Cause) : WorkError := .path failed.1 failed.2

/-- The progress lines of a file that was done. -/
def FileReport.lines (r : FileReport) : List Text :=
  Batch.announce r.path :: r.functions.map TimedFunction.progress

namespace Batch

/-- Work off a list of sources, each on the disk that the one before it left behind. -/
def workOn (host : Host) (s : Settings) : List Path → State → State × Option Failure
  | [], st => (st, none)
  | p :: ps, st =>
    let r := st.disk.instrumentFile s p host
    match failure? r with
    | some e => (st.add [announce p] r, some e)
    | none => workOn host s ps (st.add [announce p] r)

/-- Work off the sources that were found, and then meet the directory that cannot be listed. -/
def workOnFound (host : Host) (s : Settings) (found : List Path × Option (Path × Cause)) (st : State) :
    State × Option Failure :=
  ((workOn host s found.1 st).1,
    (workOn host s found.1 st).2.or (found.2.map fun failed => .work (.unlisted failed)))

variable {host : Host}

/-- **The walk of a run finds the sources that it would have found at the start.** -/
theorem workOff_eq {d : Disk} {s : Settings} (hsound : host.parse.Sound) (hd : d.Standing) (n : Nat)
    (paths : List Path) {st : State} (h : d.SameShape st.disk) :
    workOff host s n paths st = workOnFound host s (Walk.search d s host.denied n paths) st := by
  induction n generalizing paths st with
  | zero => rfl
  | succ n ih =>
    rw [workOff, Walk.step_congr h, Walk.search]
    cases hstep : Walk.step d s paths host.denied with
    | finished => rfl
    | failed dir cause => rfl
    | passed rest => exact ih rest h
    | found file rest =>
      have hshape := h.trans (Disk.sameShape_instrumentFile hsound (h.standing hd) s file)
      simp only [workOnFound, workOn]
      cases hfailed : failure? (st.disk.instrumentFile s file host) with
      | some e => rfl
      | none => exact ih rest hshape

/-- From `d` the sources of `reports` were done in turn, which left `d'`. -/
inductive Rewritten (host : Host) (s : Settings) : Disk → List FileReport → Disk → Prop
  | nil (d : Disk) : Rewritten host s d [] d
  | cons {d d' : Disk} {r : FileReport} {reports : List FileReport} {place : Location} {m : Nat}
      {old : Text} {t : Transformed} (hplace : d.locate true r.path = .ok place)
      (hfile : d.root.at? place = some (.file m old)) (ht : s.Times host.parse old t)
      (hresult : (d.instrumentFile s r.path host).result = .ok r)
      (rest : Rewritten host s (d.put place (.file m t.text)) reports d') : Rewritten host s d (r :: reports) d'

/-- A failure to load or to write the file at a path. -/
def OnFile (p : Path) (e : WorkError) : Prop := (∃ l, e = .load p l) ∨ ∃ f, e = .write p f

/-- How a run over the sources `files` ended, which came as far as `st` from `start`. -/
structure Ended (host : Host) (s : Settings) (files : List Path) (start st : State) (failure : Option Failure)
    (reports : List FileReport) : Prop where
  rewritten : Rewritten host s start.disk reports st.disk
  files_eq : st.files = start.files ++ reports
  /-- All sources are done, or all before the one that failed. -/
  outcome :
    (failure = none ∧ files = reports.map FileReport.path ∧
      st.progress = start.progress ++ reports.flatMap FileReport.lines) ∨
    ∃ (p : Path) (rest : List Path) (e : WorkError) (timed : List TimedFunction),
      failure = some (.work e) ∧ OnFile p e ∧
      files = reports.map FileReport.path ++ p :: rest ∧
      (st.disk.instrumentFile s p host).result = .error (.work e) ∧
      st.progress = start.progress ++ reports.flatMap FileReport.lines ++
        announce p :: timed.map TimedFunction.progress

/-- A run ends at a source that fails, and leaves the disk as it was. -/
theorem Ended.stop {s : Settings} {p : Path} {start : State} {e : WorkError} (timed : List TimedFunction)
    (hrun : start.disk.instrumentFile s p host =
      ⟨start.disk, timed.map TimedFunction.progress, .error (.work e)⟩)
    (he : OnFile p e) (files : List Path) : Ended host s (p :: files) start
      (workOn host s (p :: files) start).1 (workOn host s (p :: files) start).2 [] := by
  have hstop : workOn host s (p :: files) start =
      (start.add [announce p] ⟨start.disk, timed.map TimedFunction.progress, .error (.work e)⟩,
        some (.work e)) := by
    simp [workOn, hrun, failure?]
  rw [hstop]
  refine ⟨.nil _, by simp [State.add, Except.toOption], .inr ⟨p, files, e, timed, rfl, he, rfl, ?_, ?_⟩⟩
  · simp [State.add, hrun]
  · simp [State.add]

/-- **A run over a list of sources**, by induction on the list: it does a first part of them, in order, and
ends at the first that fails. -/
theorem workOn_spec (hsound : host.parse.Sound) (s : Settings) (files : List Path) (start : State)
    (hd : start.disk.Standing) : ∃ reports,
      Ended host s files start (workOn host s files start).1 (workOn host s files start).2 reports := by
  induction files generalizing start with
  | nil => exact ⟨[], .nil _, by simp [workOn], Or.inl ⟨rfl, rfl, by simp [workOn]⟩⟩
  | cons p files ih =>
    obtain ⟨e, -, hrun⟩ | ⟨f, place, m, old, t, -, -, ht, hplace, hfile, hrun⟩ :=
      Disk.instrumentFile_cases hsound hd s p
    · exact ⟨[], .stop [] hrun (.inl ⟨e, rfl⟩) files⟩
    · cases hspot : host.denied.obstacle p (start.disk.freshSpot (start.disk.temporary ⟨true, place⟩)) with
      | some fault =>
        rw [hspot] at hrun
        exact ⟨[], .stop t.functions hrun (.inr ⟨fault, rfl⟩) files⟩
      | none =>
        rw [hspot] at hrun
        obtain ⟨reports, hended⟩ := ih (start.add [announce p] (start.disk.instrumentFile s p host))
          ((Disk.sameShape_instrumentFile hsound hd s p).standing hd)
        have hgo : workOn host s (p :: files) start =
            workOn host s files (start.add [announce p] (start.disk.instrumentFile s p host)) := by
          rw [workOn]
          simp [hrun, failure?]
        rw [← hgo, hrun] at hended
        refine ⟨⟨p, t.functions, t.importsAdded⟩ :: reports, ?_, ?_, ?_⟩
        · exact .cons hplace hfile ht (by rw [hrun]) hended.rewritten
        · rw [hended.files_eq]
          simp [State.add, Except.toOption]
        · obtain ⟨hnone, hfiles, hprogress⟩ | ⟨q, rest, e, timed, hsome, honFile, hfiles, hresult, hprogress⟩ :=
            hended.outcome
          · refine Or.inl ⟨hnone, by simp [hfiles], ?_⟩
            rw [hprogress]
            simp [State.add, FileReport.lines, Transformed.progress]
          · refine Or.inr ⟨q, rest, e, timed, hsome, honFile, by simp [hfiles], hresult, ?_⟩
            rw [hprogress]
            simp [State.add, FileReport.lines, Transformed.progress]

namespace Rewritten

variable {s : Settings} {d d' : Disk} {reports : List FileReport}

theorem sameShape (h : Rewritten host s d reports d') : d.SameShape d' := by
  induction h with
  | nil d => exact .refl d
  | cons _ hfile _ _ _ ih => exact (Disk.SameShape.of_put hfile _ _).trans ih

/-- **What no source leads to stays as it is.** -/
theorem face_eq (h : Rewritten host s d reports d') {l : Location}
    (hl : ∀ r ∈ reports, d.locate true r.path ≠ .ok l) :
    (d'.root.at? l).map Entry.face = (d.root.at? l).map Entry.face := by
  induction h with
  | nil d => rfl
  | @cons d d' r reports place m old t hplace hfile _ _ _ ih =>
    have hshape := Disk.SameShape.of_put hfile m t.text
    have hne : l ≠ place := fun heq => hl r List.mem_cons_self (heq ▸ hplace)
    rw [ih fun q hq => by rw [hshape.locate]; exact hl q (List.mem_cons_of_mem r hq)]
    exact Disk.SameShape.face_put_file hfile hne m t.text

/-- **A file is transformed once for each source that leads to it**, and keeps its permission bits. -/
theorem retimed (h : Rewritten host s d reports d') {l : Location} {m : Nat} {c : Text}
    (hfile : d.root.at? l = some (.file m c)) :
    ∃ c', d'.root.at? l = some (.file m c') ∧
      s.Retimed host.parse (reports.countP fun r => d.leadsTo l r.path) c c' := by
  induction h generalizing m c with
  | nil d => exact ⟨c, hfile, .none c⟩
  | @cons d d' r reports place m' old t hplace hold ht _ _ ih =>
    have hshape := Disk.SameShape.of_put hold m' t.text
    have hcount : (reports.countP fun r => (d.put place (.file m' t.text)).leadsTo l r.path) =
        reports.countP fun r => d.leadsTo l r.path := by
      simp only [Disk.leadsTo, hshape.locate]
    rw [List.countP_cons, ← hcount]
    by_cases hl : l = place
    · subst hl
      rw [hfile] at hold
      obtain ⟨rfl, rfl⟩ := Entry.file.inj (Option.some.inj hold)
      obtain ⟨c', hc', hrest⟩ := ih (Disk.at?_put_file hfile _)
      have hleads : d.leadsTo l r.path = true := by simp [Disk.leadsTo, hplace, Except.toOption]
      rw [if_pos hleads]
      exact ⟨c', hc', .more ht hrest⟩
    · have hface := Disk.SameShape.face_put_file hold hl m' t.text
      rw [hfile] at hface
      obtain ⟨c', hc', hrest⟩ := ih (Entry.map_face_eq_file hface)
      have hleads : d.leadsTo l r.path = false := by
        simp [Disk.leadsTo, hplace, Except.toOption, Ne.symm hl]
      rw [hleads]
      exact ⟨c', hc', hrest⟩

/-- Sources that lead to different places do not meet: each was done as it would have been done alone. -/
theorem alone (hsound : host.parse.Sound) (h : Rewritten host s d reports d') (hd : d.Standing)
    (hdistinct : reports.Pairwise fun r q => ∀ place, d.locate true r.path = .ok place →
      d.locate true q.path ≠ .ok place) :
    ∀ r ∈ reports, (d.instrumentFile s r.path host).result = .ok r ∧
      ∃ place m old t, d.locate true r.path = .ok place ∧ d.root.at? place = some (.file m old) ∧
        s.Times host.parse old t ∧ d'.root.at? place = some (.file m t.text) := by
  induction h with
  | nil d => exact fun r hr => absurd hr List.not_mem_nil
  | @cons d d' r reports place m old t hplace hfile ht hresult rest ih =>
    obtain ⟨hapart, hdistinct⟩ := List.pairwise_cons.mp hdistinct
    have hshape := Disk.SameShape.of_put hfile m t.text
    have hlast := rest.face_eq fun q hq => by rw [hshape.locate]; exact hapart q hq place hplace
    rw [Disk.at?_put_file hfile] at hlast
    refine List.forall_mem_cons.mpr ⟨⟨hresult, place, m, old, t, hplace, hfile, ht,
      Entry.map_face_eq_file hlast⟩, fun q hq => ?_⟩
    have hother : ∀ l, d.locate true q.path = .ok l →
        ((d.put place (.file m t.text)).root.at? l).map Entry.face = (d.root.at? l).map Entry.face :=
      fun l hl => Disk.SameShape.face_put_file hfile (fun heq => hapart q hq place hplace (heq ▸ hl)) m t.text
    obtain ⟨hq', l, m', old', t', hl, hfile', ht', hfinal⟩ :=
      ih (hshape.standing hd) (by simpa only [hshape.locate] using hdistinct) q hq
    rw [hshape.locate] at hl
    rw [Disk.instrumentFile_congr hsound hd hshape hother] at hq'
    have hbefore : d.root.at? l = some (.file m' old') :=
      Entry.map_face_eq_file (by rw [← hother l hl, hfile']; rfl)
    exact ⟨hq', l, m', old', t', hl, hbefore, ht', hfinal⟩

end Rewritten

end Batch

end Stopwatch
