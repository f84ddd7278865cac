import Mathlib
import Stopwatch.Proofs.PrintedImports
import Stopwatch.Proofs.SupportUpkeep
import Stopwatch.Proofs.TreeErrors

/-!
# The support package after a run

The package is written into the directory whose sources are rewritten next. What keeps it as it is, is that
the walk passes over one name, which the settings choose. An entry that is no link has the name by which a
path leads to it, so no source that is no link leads to a file of that name.

* `Disk.name_eq_of_sameFile`: what the test of the name relies on.
* `Disk.instrument_keeps_support`: a file of the package is there, unchanged, after the run, whose name the
  walk passes over. Only where the name is another one, or links come in, has it to be said that no source
  leads to it.
* `Disk.instrument_loses_support`: settings that reserve another name, and links that lead to the package or
  lie in its place.
-/

namespace Stopwatch

/-! ## Names and places -/

namespace Disk

variable {d : Disk} {p q : Path} {n m : String}

/-- A path that is no link and leads to a file ends with the name of that. -/
theorem exists_concat_of_locate {place : Location} {mode : Nat} {c : Text}
    (h : d.locate true (p.child n) = .ok place) (hfile : d.root.at? place = some (.file mode c))
    (hlink : d.isLink (p.child n) = false) : ∃ holder, place = holder ++ [n] := by
  obtain ⟨k, hk, hleads⟩ := locate_iff.mp h
  obtain ⟨mid, i, j, hfront, hlast, rfl⟩ := Entry.leads_append hleads
  cases hlast with
  | stay _ hdir hdone =>
    -- A `.` leads to the directory itself.
    cases hdone
    cases hdir.symm.trans hfile
  | up _ hdir hdone =>
    -- And what is above a directory is one too.
    cases hdone
    rcases List.eq_nil_or_concat mid with rfl | ⟨front, x, rfl⟩
    · cases hdir.symm.trans hfile
    · rw [List.concat_eq_append] at hdir hfile
      obtain ⟨es, hes⟩ := Entry.exists_dir_of_at?_concat hdir
      rw [List.dropLast_concat] at hfile
      cases hes.symm.trans hfile
  | down _ _ _ hdone =>
    cases hdone
    exact ⟨mid, rfl⟩
  | through hn hat _ =>
    have hparent : d.locate true p = .ok mid := locate_iff.mpr ⟨i, by omega, hfront⟩
    rw [isLink_child hparent hn hat] at hlink
    cases hlink

/-- **Paths that are no links lead to one file under one name only.** -/
theorem name_eq_of_sameFile (hfile : d.isFile (q.child m) = true) (h : d.SameFile (p.child n) (q.child m))
    (hp : d.isLink (p.child n) = false) (hq : d.isLink (q.child m) = false) : n = m := by
  obtain ⟨place, hplace, hplace'⟩ := h
  obtain ⟨place', mode, c, hfound, hat⟩ := isFile_iff.mp hfile
  obtain rfl := Except.ok.inj (hplace'.symm.trans hfound)
  obtain ⟨holder, rfl⟩ := exists_concat_of_locate hplace hat hp
  obtain ⟨holder', heq⟩ := exists_concat_of_locate hplace' hat hq
  exact List.singleton_inj.mp (List.append_inj' heq rfl).2

end Disk

@[simp] theorem Path.name_child (p : Path) (n : String) : (p.child n).name = n := by
  simp [name, child]

/-! ## What a walk finds -/

namespace Walk

variable {d : Disk} {s : Settings} {denied : Denials} {paths rest : List Path} {file dir : Path}

/-- The paths of the entries of a directory, as they are looked at. -/
def Below (paths : List Path) : Prop := ∀ p ∈ paths, ∃ dir n, p = Path.child dir n

theorem below_entries (h : entries d dir denied = .ok paths) : Below paths := by
  unfold entries at h
  cases hlist : unlessRefused ((denied.refuses .list dir).map Fault.cause) (d.list dir) with
  | error c =>
    rw [hlist] at h
    cases h
  | ok names =>
    rw [hlist] at h
    obtain rfl := Except.ok.inj h
    intro p hp
    obtain ⟨n, -, rfl⟩ := List.mem_map.mp hp
    exact ⟨dir, n, rfl⟩

/-- A step goes on with entries of directories. -/
theorem below_of_passed (hpaths : Below paths) (h : step d s paths denied = .passed rest) : Below rest := by
  cases paths with
  | nil => cases h
  | cons p others =>
    obtain ⟨-, hothers⟩ := List.forall_mem_cons.mp hpaths
    rw [step] at h
    split_ifs at h
    · obtain rfl := Step.passed.inj h
      exact hothers
    · cases hentries : entries d p denied with
      | error c =>
        rw [hentries] at h
        cases h
      | ok inner =>
        rw [hentries] at h
        obtain rfl := Step.passed.inj h
        exact List.forall_mem_append.mpr ⟨below_entries hentries, hothers⟩
    · obtain rfl := Step.passed.inj h
      exact hothers

/-- What a step finds is one of them, and has the name of a source. -/
theorem below_of_found (hpaths : Below paths) (h : step d s paths denied = .found file rest) :
    (s.isSource file = true ∧ ∃ dir n, file = Path.child dir n) ∧ Below rest := by
  cases paths with
  | nil => cases h
  | cons p others =>
    obtain ⟨hfirst, hothers⟩ := List.forall_mem_cons.mp hpaths
    rw [step] at h
    split_ifs at h with hlink hsource hdir hsource
    · obtain ⟨rfl, rfl⟩ := Step.found.inj h
      exact ⟨⟨(Bool.and_eq_true_iff.mp hsource).2, hfirst⟩, hothers⟩
    · cases hentries : entries d p denied <;> rw [hentries] at h <;> cases h
    · obtain ⟨rfl, rfl⟩ := Step.found.inj h
      exact ⟨⟨hsource, hfirst⟩, hothers⟩

theorem mem_search {n : Nat} (hpaths : Below paths) (hfile : file ∈ (search d s denied n paths).1) :
    s.isSource file = true ∧ ∃ dir n, file = Path.child dir n := by
  induction n generalizing paths with
  | zero => cases hfile
  | succ n ih =>
    rw [search] at hfile
    cases hstep : step d s paths denied with
    | finished =>
      rw [hstep] at hfile
      cases hfile
    | failed =>
      rw [hstep] at hfile
      cases hfile
    | passed rest =>
      rw [hstep] at hfile
      exact ih (below_of_passed hpaths hstep) hfile
    | found first rest =>
      rw [hstep] at hfile
      obtain ⟨hfirst, hrest⟩ := below_of_found hpaths hstep
      rcases List.mem_cons.mp hfile with rfl | hfile
      · exact hfirst
      · exact ih hrest hfile

/-- **Every source that a walk finds** is an entry of a directory and has the name of a source. -/
theorem mem_found {root : Path} (hfile : file ∈ (found d s root denied).1) :
    s.isSource file = true ∧ ∃ dir n, file = Path.child dir n := by
  unfold found at hfile
  cases hentries : entries d root denied with
  | error c =>
    rw [hentries] at hfile
    cases hfile
  | ok paths =>
    rw [hentries] at hfile
    exact mem_search (below_entries hentries) hfile

end Walk

/-- A file that no source leads to is as current after the sources were rewritten as before. -/
theorem Batch.Rewritten.isCurrent {host : Host} {s : Settings} {d d' : Disk} {reports : List FileReport}
    (h : Rewritten host s d reports d') {p : Path} {content : Text}
    (hcurrent : Support.isCurrent d p content = true)
    (hapart : ∀ r ∈ reports, ¬ d.SameFile r.path p) : Support.isCurrent d' p content = true := by
  obtain ⟨place, m, hplace, hfile⟩ := Support.isCurrent_iff.mp hcurrent
  have hface := h.face_eq fun r hr hr' => hapart r hr ⟨place, hr', hplace⟩
  rw [hfile] at hface
  exact Support.isCurrent_iff.mpr ⟨place, m, (h.sameShape.locate true p).trans hplace,
    Entry.map_face_eq_file hface⟩

namespace Support

/-- **What the test of the name gives**: no source leads to a file of the package whose name is passed over, links
apart. -/
theorem apart_of_name {d : Disk} {s : Settings} {root p : Path} {denied : Denials} {f : String × Text}
    (hfile : d.isFile (path root s.supportDir f) = true) (hp : p ∈ (Walk.found d s root denied).1)
    (hlink : d.isLink p = false) (hown : d.isLink (path root s.supportDir f) = false)
    (hname : s.isSource (path root s.supportDir f) = false) : ¬ d.SameFile p (path root s.supportDir f) := by
  intro hsame
  obtain ⟨hsource, dir, n, rfl⟩ := Walk.mem_found hp
  obtain rfl : n = f.1 := Disk.name_eq_of_sameFile hfile hsame hlink hown
  rw [path, Settings.isSource, Path.name_child] at hname
  rw [Settings.isSource, Path.name_child, hname] at hsource
  cases hsource

end Support

namespace Disk

variable {host : Host} {d d₁ : Disk} {root : Path} {config : Option Settings} {file : Option Path} {s : Settings}
  {files : List Path} {report : RunReport}

/-- A run that comes to its end has brought the support package up to date. -/
theorem exists_ensure_of_ok (hroot : d.isDir root = true) (hs : d.Uses root config file s host.denied)
    (hreport : (d.instrument root config file host).result = .ok report) (hok : report.ok = true) :
    ∃ d₁ written, Support.ensure d root s.supportDir host.denied = (d₁, .ok written) := by
  cases hensure : Support.ensure d root s.supportDir host.denied with
  | mk made outcome =>
    cases outcome with
    | ok written => exact ⟨made, written, rfl⟩
    | error e =>
      rw [instrument_of_error hroot hs hensure] at hreport
      cases e with
      | work e =>
        obtain rfl := Except.ok.inj hreport
        simp [RunReport.ok] at hok
      | crash => cases hreport

/-- **The support package is not rewritten by a run that comes to its end**, whatever the parser, if it is sound,
and whatever the system refuses. Its files are as they should be, and nothing is left to do. That asks for two
things. The path of such a file, if it is a link once its directory is there, can be followed to its end. And no
source leads to the file; but where the walk passes over its name, and its path is no link, only the links among the
sources may. -/
theorem instrument_keeps_support (hsound : host.parse.Sound) (hd : d.Standing) (hroot : d.isDir root = true)
    (hs : d.Uses root config file s host.denied)
    (hreport : (d.instrument root config file host).result = .ok report) (hok : report.ok = true)
    (hsupport : (Support.ensure d root s.supportDir host.denied).1 = d₁)
    (hfiles : (Walk.found d₁ s root host.denied).1 = files)
    (hlink : ∀ f ∈ Support.files,
      (Support.prepared d root s.supportDir host.denied).isLink (Support.path root s.supportDir f) = true →
        (Support.prepared d root s.supportDir host.denied).Followable (Support.path root s.supportDir f))
    (hapart : ∀ f ∈ Support.files, ∀ p ∈ files,
      d₁.isLink p = true ∨ d₁.isLink (Support.path root s.supportDir f) = true ∨
        s.isSource (Support.path root s.supportDir f) = true →
      ¬ d₁.SameFile p (Support.path root s.supportDir f)) :
    (∀ f ∈ Support.files, Support.isCurrent (d.instrument root config file host).disk
        (Support.path root s.supportDir f) f.2 = true) ∧
      ∀ later : Denials, (∀ f ∈ Support.files, later.refuses .read (Support.path root s.supportDir f) = none) →
        Support.ensure (d.instrument root config file host).disk root s.supportDir later =
          ((d.instrument root config file host).disk, .ok []) := by
  obtain ⟨made, written, hensure⟩ := exists_ensure_of_ok hroot hs hreport hok
  obtain rfl : made = d₁ := by rw [← hsupport, hensure]
  have hfile : ∀ f ∈ Support.files, made.isFile (Support.path root s.supportDir f) = true := fun f hf =>
    Support.isFile_of_ensure hd hensure hf (hlink f hf)
  have hall : ∀ f ∈ Support.files, ∀ p ∈ files, ¬ made.SameFile p (Support.path root s.supportDir f) := by
    intro f hf p hp
    by_cases hany : made.isLink p = true ∨ made.isLink (Support.path root s.supportDir f) = true ∨
        s.isSource (Support.path root s.supportDir f) = true
    · exact hapart f hf p hp hany
    · simp only [not_or, Bool.not_eq_true] at hany
      exact Support.apart_of_name (hfile f hf) (hfiles ▸ hp) hany.1 hany.2.1 hany.2.2
  obtain ⟨reports, hrewritten, hpart, -⟩ := instrument_through hsound hd hroot hs hensure
  rw [hfiles] at hpart
  have hcurrent : ∀ f ∈ Support.files, Support.isCurrent (d.instrument root config file host).disk
      (Support.path root s.supportDir f) f.2 = true := fun f hf =>
    hrewritten.isCurrent (Support.isCurrent_of_ensure hd hensure hf (hfile f hf))
      fun r hr => hall f hf r.path (hpart.subset (List.mem_map_of_mem hr))
  exact ⟨hcurrent, fun later hreads => Support.ensureFiles_of_isCurrent hreads hcurrent []⟩

end Disk

/-! ## Sources that are read without imports -/

namespace Cst

mutual

/-- Comments bring no error into a tree. -/
theorem hasError_weave (comments : List CommentSpan) : ∀ c : Cst, (weave comments c).hasError = c.hasError
  | .node i cs => by
    rw [weave]
    split
    · rfl
    · have hcomments : ∀ ks : List CommentSpan, (ks.map ofComment).any hasError = false := fun ks => by
        rw [List.any_map]
        exact List.any_eq_false.mpr fun k _ => by simp [ofComment, hasError, anyError]
      simp only [hasError]
      rw [anyError_eq_any, (List.mergeSort_perm _ _).any_eq, List.any_append, hcomments, Bool.or_false,
        ← anyError_eq_any, anyError_weaveAll comments cs]

theorem anyError_weaveAll (comments : List CommentSpan) :
    ∀ cs : List Cst, anyError (weaveAll comments cs) = anyError cs
  | [] => rfl
  | c :: cs => by
    rw [weaveAll, anyError, anyError, hasError_weave _ c, anyError_weaveAll comments cs]

end

/-- A child of a node is still there when comments are put back. -/
theorem mem_children_of_mem {comments : List CommentSpan} {i : CstInfo} {c : Cst} {cs : List Cst} (hc : c ∈ cs) :
    weave (comments.filter (surrounds c.info)) c ∈ (weave comments (.node i cs)).children := by
  rw [weave]
  split
  · next hnone =>
    rw [List.isEmpty_iff.mp hnone, List.filter_nil, weave_nil]
    exact hc
  · rw [weaveAll_eq_map]
    exact List.mem_mergeSort.mpr (List.mem_append_left _ (List.mem_map_of_mem hc))

end Cst

theorem Node.isImportDecl_withTrailing (t : Text) (n : Node) :
    (n.withTrailing t).isImportDecl = n.isImportDecl := by
  cases n <;> rfl

namespace Load

theorem isImportDecl_blockNode (source : Source) {b : Item × Option Item}
    (h : b.1.node.kind ≠ "import_declaration") :
    (blockNode source (decl source) b).isImportDecl = false := by
  have hitem : (itemNode source (decl source) b.1).isImportDecl = false := by
    unfold itemNode
    split
    · rfl
    · obtain ⟨-, name, heq⟩ | ⟨himport, -⟩ | ⟨-, heq⟩ | ⟨-, -, -, heq⟩ := decl_cases source b.1
      · rw [heq]; rfl
      · exact absurd himport h
      · rw [heq]; rfl
      · rw [heq]; rfl
  unfold blockNode
  split
  · exact hitem
  · rwa [Node.isImportDecl_withTrailing]

/-- A file without import declarations imports nothing. -/
theorem imports_build {source : Source} {root : Cst}
    (h : ∀ c ∈ root.namedChildren, c.kind ≠ "import_declaration") :
    (SourceFile.build source root).imports = [] := by
  refine List.flatMap_eq_nil_iff.mpr fun n hn => ?_
  rw [decls_build] at hn
  obtain ⟨b, hb, rfl⟩ := List.mem_map.mp hn
  obtain ⟨c, hc, hitem⟩ := List.mem_map.mp (mem_of_mem_sortedBlocks source hb)
  have hkind := isImportDecl_blockNode source (b := b) (by rw [← hitem]; exact h c hc)
  cases hnode : blockNode source (decl source) b with
  | importDecl => simp [hnode, Node.isImportDecl] at hkind
  | _ => rfl

end Load

/-- Whether the grammar reads a text as a file that has a package clause and imports nothing. -/
def SourceFile.readsPlain (text : Text) : Bool :=
  match Lexer.scan text with
  | none => false
  | some s =>
    match Rule.parse Go.rules (Cst.depthBound s.tokens) Go.file .lines s.tokens with
    | some (o, []) =>
      !Cst.anyError o.nodes && o.nodes.any (fun c => c.info.named && c.kind == "package_clause") &&
        o.nodes.all fun c => c.kind != "import_declaration"
    | _ => false

theorem SourceFile.ofSource_of_readsPlain {text : Text} (h : readsPlain text = true) :
    ∃ f, ofSource text = .ok f ∧ f.imports = [] := by
  unfold readsPlain at h
  split at h
  · cases h
  · next s hscan =>
    split at h
    · next o hparse =>
      simp only [Bool.and_eq_true, Bool.not_eq_true', List.any_eq_true, List.all_eq_true, beq_iff_eq,
        bne_iff_ne] at h
      obtain ⟨⟨herror, c, hc, hnamed, hkind⟩, himports⟩ := h
      have htree : Cst.parse text = Cst.root text o.nodes s.comments := by
        simp only [Cst.parse, hscan, hparse]
      have hsound : (Cst.parse text).hasError = false := by
        rw [htree, Cst.root, Cst.hasError_weave]
        simp [Cst.hasError, herror]
      have hclause : ∃ d ∈ (Cst.parse text).namedChildren, d.kind = "package_clause" := by
        rw [htree]
        refine ⟨_, List.mem_filter.mpr ⟨Cst.mem_children_of_mem hc, ?_⟩, ?_⟩
        · rwa [Cst.info_weave]
        · rwa [Cst.kind, Cst.info_weave]
      refine ⟨_, Load.ofCst_eq_ok hsound hclause, Load.imports_build fun d hd => ?_⟩
      rw [htree] at hd
      obtain ⟨b, hb, rfl⟩ | ⟨k, -, rfl⟩ := Cst.mem_children_weave (List.mem_filter.mp hd).1
      · rw [Cst.kind, Cst.info_weave]
        exact himports b hb
      · simp [Cst.kind, Cst.info, Cst.ofComment]
    · cases h

/-! ## Small runs -/

/-- The run over a directory with one source that can be loaded. -/
theorem Disk.instrument_one {d d₁ : Disk} {root p : Path} (s : Settings) {written : List Path}
    {place : Location} {m : Nat} {old : Text} (hd : d.Standing) (hroot : d.isDir root = true)
    (hsupport : Support.ensure d root s.supportDir = (d₁, .ok written))
    (hfiles : Walk.sourceFiles d₁ s root = .ok [p]) (hplace : d₁.locate true p = .ok place)
    (hfile : d₁.root.at? place = some (.file m old)) (hload : SourceFile.readsPlain old = true)
    (hspot : (d₁.freshSpot (d₁.temporary ⟨true, place⟩)).isOk = true) :
    ∃ report content, (d.instrument root (some s) none).result = .ok report ∧ report.ok = true ∧
      (d.instrument root (some s) none).disk = d₁.put place (.file m content) ∧
      Text.Quoted.quote ∈ content := by
  have hd₁ : d₁.Standing := Support.standing_of_ensure hd hsupport
  obtain ⟨f, hf, himports⟩ := SourceFile.ofSource_of_readsPlain hload
  have hread : d₁.load p = .ok f := load_ok.mpr ⟨rfl, old, read_file hplace hfile, hf⟩
  obtain ⟨e, he, -⟩ | ⟨g, place', m', old', t, hload', ht, -, hplace', hfile', hrun⟩ :=
    instrumentFile_cases Host.sound_default hd₁ s p
  · cases hread.symm.trans he
  · obtain rfl := Except.ok.inj (hplace.symm.trans hplace')
    obtain ⟨rfl, rfl⟩ := Entry.file.inj (Option.some.inj (hfile.symm.trans hfile'))
    obtain rfl := Except.ok.inj (hread.symm.trans hload')
    cases hspot' : d₁.freshSpot (d₁.temporary ⟨true, place⟩) with
    | error fault => simp [hspot', Except.isOk, Except.toBool] at hspot
    | ok spot =>
      rw [hspot'] at hrun
      have hdone : d₁.instrumentFile s p =
          ⟨d₁.put place (.file m t.text), t.progress, .ok ⟨p, t.functions, t.importsAdded⟩⟩ := hrun
      have hall : d.instrument root (some s) none =
          Batch.finish { root := root, scope := .directory, supportWritten := written }
            (Batch.State.add ⟨d₁, [], []⟩ [Batch.announce p] (d₁.instrumentFile s p)) none := by
        rw [instrument_eq hroot (.inl rfl), instrumentWith_eq Host.sound_default hd hsupport,
          Walk.sourceFiles_eq_ok.mp hfiles]
        simp [Batch.workOnFound, Batch.workOn, hdone, Batch.failure?]
      rw [hall, hdone]
      exact ⟨_, t.text, rfl, rfl, rfl, SourceFile.quote_mem_of_transform himports ht⟩

/-- If the one source leads to where the support package should be read, that is not there afterwards. -/
theorem Disk.instrument_spoils {d d₁ : Disk} {root p q : Path} (s : Settings) {written : List Path}
    {place : Location} {m : Nat} {old : Text} (hd : d.Standing) (hroot : d.isDir root = true)
    (hsupport : Support.ensure d root s.supportDir = (d₁, .ok written))
    (hfiles : Walk.sourceFiles d₁ s root = .ok [p]) (hplace : d₁.locate true p = .ok place)
    (hown : d₁.locate true q = .ok place) (hfile : d₁.root.at? place = some (.file m old))
    (hload : SourceFile.readsPlain old = true) (hquote : Text.Quoted.quote ∉ old)
    (hspot : (d₁.freshSpot (d₁.temporary ⟨true, place⟩)).isOk = true) :
    ∃ report, (d.instrument root (some s) none).result = .ok report ∧ report.ok = true ∧
      Support.isCurrent (d.instrument root (some s) none).disk q old = false := by
  obtain ⟨report, content, hreport, hok, hdisk, hmem⟩ :=
    instrument_one s hd hroot hsupport hfiles hplace hfile hload hspot
  refine ⟨report, hreport, hok, ?_⟩
  rw [hdisk, ← Bool.not_eq_true, Support.isCurrent_iff]
  rintro ⟨place', m', hplace', hat⟩
  rw [(SameShape.of_put hfile m content).locate, hown] at hplace'
  obtain rfl := Except.ok.inj hplace'
  rw [at?_put_file hfile] at hat
  exact hquote ((Entry.file.inj (Option.some.inj hat)).2 ▸ hmem)

namespace Sample

theorem sourceFiles_dangling : Walk.sourceFiles danglingDisk {} rootPath = .ok [] :=
  sourceFiles_disk rfl rfl rfl

/-- Settings that reserve another name than that of the support package. -/
def otherName : Settings := { reservedFilename := "other.go" }

theorem ensure_empty : Support.ensure (disk [] []) rootPath "_runtime" =
    (readyDisk [], .ok [tracePath]) :=
  ensure_eq (fun content => disk [("func_trace.go", .file 0o644 content)] []) rfl rfl rfl fun _ => rfl

theorem sourceFiles_otherName : Walk.sourceFiles (readyDisk []) otherName rootPath = .ok [tracePath] :=
  sourceFiles_disk rfl rfl rfl

/-- A link that leads to the file of the support package. -/
def indirect : Listing := [("x.go", .link "_runtime/func_trace.go")]

theorem ensure_indirect : Support.ensure (disk [] indirect) rootPath "_runtime" = (readyDisk indirect, .ok [tracePath]) :=
  ensure_eq (fun content => disk [("func_trace.go", .file 0o644 content)] indirect) rfl rfl rfl fun _ => rfl

theorem sourceFiles_indirect : Walk.sourceFiles (readyDisk indirect) {} rootPath = .ok [rootPath.child "x.go"] :=
  sourceFiles_disk rfl rfl rfl

/-- A link to a source, in the place of the file of the support package. -/
def borrowed : Listing := [("func_trace.go", .link "../a.go")]

/-- The disk when the support package is written through that link. -/
def borrowedDisk : Disk := disk borrowed [("a.go", .file 0o600 traceText)]

/-- A single source. -/
def lone : Listing := [("a.go", .file 0o600 (utf8 "package p\n"))]

theorem ensure_borrowed : Support.ensure (disk borrowed lone) rootPath "_runtime" = (borrowedDisk, .ok [tracePath]) :=
  ensure_eq (fun content => disk borrowed [("a.go", .file 0o600 content)]) rfl rfl rfl fun _ => rfl

theorem sourceFiles_borrowed : Walk.sourceFiles borrowedDisk {} rootPath = .ok [rootPath.child "a.go"] :=
  sourceFiles_disk rfl rfl rfl

theorem readsPlain_trace : SourceFile.readsPlain traceText = true := by decide +kernel

theorem quote_notMem_trace : Text.Quoted.quote ∉ traceText := by decide +kernel

theorem ensure_lone : Support.ensure (disk [] lone) rootPath "_runtime" =
    (readyDisk lone, .ok [tracePath]) :=
  ensure_eq (fun content => disk [("func_trace.go", .file 0o644 content)] lone) rfl rfl rfl fun _ => rfl

theorem sourceFiles_lone : Walk.sourceFiles (readyDisk lone) {} rootPath = .ok [rootPath.child "a.go"] :=
  sourceFiles_disk rfl rfl rfl

theorem readsPlain_lone : SourceFile.readsPlain (utf8 "package p\n") = true := by decide +kernel

end Sample

/-- The settings are the default ones, and nothing is a link. -/
theorem Disk.instrument_keeps_support_lone :
    (∀ f ∈ Support.files, Support.isCurrent
        ((Sample.disk [] Sample.lone).instrument Sample.rootPath (some {}) none).disk
        (Support.path Sample.rootPath (Settings.supportDir {}) f) f.2 = true) ∧
      Support.ensure ((Sample.disk [] Sample.lone).instrument Sample.rootPath (some {}) none).disk
        Sample.rootPath (Settings.supportDir {}) =
        (((Sample.disk [] Sample.lone).instrument Sample.rootPath (some {}) none).disk, .ok []) := by
  have hstanding := Sample.standing_disk [] Sample.lone
  have hroot := Sample.isDir_rootPath [] Sample.lone
  have huses : (Sample.disk [] Sample.lone).Uses Sample.rootPath (some {}) none {} := .inl rfl
  have hsource : (Sample.readyDisk Sample.lone).root.at? ["r", "a.go"] =
      some (.file 0o600 (utf8 "package p\n")) := rfl
  obtain ⟨report, content, hreport, hok, -⟩ := Disk.instrument_one {} hstanding hroot
    Sample.ensure_lone Sample.sourceFiles_lone rfl hsource Sample.readsPlain_lone rfl
  have hfiles : (Walk.found (Sample.readyDisk Sample.lone) {} Sample.rootPath {}).1 =
      [Sample.rootPath.child "a.go"] := congrArg Prod.fst (Walk.sourceFiles_eq_ok.mp Sample.sourceFiles_lone)
  have hmade : (Support.prepared (Sample.disk [] Sample.lone) Sample.rootPath "_runtime").isLink
      Sample.tracePath = false := rfl
  have hown : (Sample.readyDisk Sample.lone).isLink Sample.tracePath = false := rfl
  have hlink : (Sample.readyDisk Sample.lone).isLink (Sample.rootPath.child "a.go") = false := rfl
  have hname : Settings.isSource {} Sample.tracePath = false := rfl
  obtain ⟨hcurrent, hnothing⟩ := Disk.instrument_keeps_support Host.sound_default hstanding hroot huses hreport hok
    (congrArg Prod.fst Sample.ensure_lone) hfiles
    (List.forall_mem_singleton.mpr fun h => absurd (hmade.symm.trans h) Bool.false_ne_true)
    (List.forall_mem_singleton.mpr (List.forall_mem_singleton.mpr fun h => by
      rcases h with h | h | h
      · cases hlink.symm.trans h
      · cases hown.symm.trans h
      · cases hname.symm.trans h))
  exact ⟨hcurrent, hnothing {} fun _ _ => rfl⟩

/-- Four runs that come to their end without leaving the support package behind: one takes it for a source, since
the settings reserve another name; one has a source that is a link to it; one writes it onto a source, through a link
in its place; and one writes it through a link that nothing can be read through, so that it would be written again. -/
theorem Disk.instrument_loses_support :
    (∃ report, ((Sample.disk [] []).instrument Sample.rootPath (some Sample.otherName) none).result =
          .ok report ∧ report.ok = true ∧
        Support.isCurrent ((Sample.disk [] []).instrument Sample.rootPath (some Sample.otherName) none).disk
          Sample.tracePath Sample.traceText = false) ∧
      (∃ report, ((Sample.disk [] Sample.indirect).instrument Sample.rootPath (some {}) none).result = .ok report ∧
        report.ok = true ∧
        Support.isCurrent ((Sample.disk [] Sample.indirect).instrument Sample.rootPath (some {}) none).disk
          Sample.tracePath Sample.traceText = false) ∧
      (∃ report, ((Sample.disk Sample.borrowed Sample.lone).instrument Sample.rootPath (some {}) none).result =
          .ok report ∧ report.ok = true ∧
        Support.isCurrent ((Sample.disk Sample.borrowed Sample.lone).instrument Sample.rootPath (some {}) none).disk
          Sample.tracePath Sample.traceText = false) ∧
      ∃ report, ((Sample.disk Sample.dangling []).instrument Sample.rootPath (some {}) none).result =
          .ok report ∧ report.ok = true ∧
        Support.isCurrent ((Sample.disk Sample.dangling []).instrument Sample.rootPath (some {}) none).disk
          Sample.tracePath Sample.traceText = false ∧
        (Support.ensure ((Sample.disk Sample.dangling []).instrument Sample.rootPath (some {}) none).disk
          Sample.rootPath "_runtime").2 = .ok [Sample.tracePath] := by
  refine ⟨?_, ?_, ?_, ?_⟩
  · have hfile : (Sample.readyDisk []).root.at? ["r", "_runtime", "func_trace.go"] =
        some (.file 0o644 Sample.traceText) := rfl
    exact instrument_spoils Sample.otherName (Sample.standing_disk _ _) (Sample.isDir_rootPath _ _)
      Sample.ensure_empty Sample.sourceFiles_otherName rfl rfl hfile Sample.readsPlain_trace
      Sample.quote_notMem_trace rfl
  · have hfile : (Sample.readyDisk Sample.indirect).root.at? ["r", "_runtime", "func_trace.go"] =
        some (.file 0o644 Sample.traceText) := rfl
    exact instrument_spoils {} (Sample.standing_disk _ _) (Sample.isDir_rootPath _ _) Sample.ensure_indirect
      Sample.sourceFiles_indirect rfl rfl hfile Sample.readsPlain_trace Sample.quote_notMem_trace rfl
  · have hfile : Sample.borrowedDisk.root.at? ["r", "a.go"] = some (.file 0o600 Sample.traceText) := rfl
    exact instrument_spoils {} (Sample.standing_disk _ _) (Sample.isDir_rootPath _ _) Sample.ensure_borrowed
      Sample.sourceFiles_borrowed rfl rfl hfile Sample.readsPlain_trace Sample.quote_notMem_trace rfl
  · have hrun : (Sample.disk Sample.dangling []).instrument Sample.rootPath (some {}) none =
        { disk := Sample.danglingDisk
          result := .ok ⟨Sample.rootPath, .directory, [Sample.tracePath], [], none⟩ } := by
      have huses : (Sample.disk Sample.dangling []).Uses Sample.rootPath (some {}) none {} := .inl rfl
      have hsupport : Support.ensure (Sample.disk Sample.dangling []) Sample.rootPath
          (Settings.supportDir {}) = (Sample.danglingDisk, .ok [Sample.tracePath]) := Sample.ensure_dangling
      rw [Disk.instrument_eq (Sample.isDir_rootPath _ _) huses, Disk.instrumentWith_eq Host.sound_default
        (Sample.standing_disk _ _) hsupport, Walk.sourceFiles_eq_ok.mp Sample.sourceFiles_dangling]
      rfl
    rw [hrun]
    exact ⟨_, rfl, rfl, rfl, congrArg Prod.snd Sample.ensure_danglingDisk⟩

end Stopwatch
