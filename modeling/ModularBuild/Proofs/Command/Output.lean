import ModularBuild.Proofs.Archive.Plan
import ModularBuild.Proofs.Command.Archiving
import ModularBuild.Proofs.FileTree.Places

/-! # Where an archive goes that was given no place

The archive then takes the place beside its description that has the description's name with
another extension. No file is changed but the one there. So a run can be repeated if nothing that
it reads is there; but nothing sees to that, and a description that has the extension already is
in this place itself. -/

namespace ModularBuild

open FileTree

variable {t t' : FileTree} {p : Path} {a : Archive} {loc : Location}

/-! ## The place beside a description -/

namespace Archive

theorem extension_ne (compression : Compression) :
    '/' ∉ compression.extension.toList ∧ compression.extension ≠ "" := by
  cases compression <;> decide

/-- The new extension is the old one only if that is the extension of plain archives. -/
theorem renamed_extension_iff {name : String} (h : p.fileName? = some name)
    (compression : Compression) : Path.renamed name compression.extension = name ↔
      compression = .none ∧ p.hasExtension "tar" = true := by
  rw [Path.renamed_eq_iff, Path.hasExtension_iff h]
  cases compression with
  | none => exact (and_iff_right rfl).symm
  | gzip =>
    refine iff_of_false ?_ (by simp)
    rcases Path.cutExtension_cases name.toList with hcut | ⟨stem, ext, hcut, -, hdot, -⟩
    · rw [hcut]
      simp
    · -- what follows the last dot has no dot
      rw [hcut]
      intro he
      exact hdot (Option.some.inj he ▸ by decide)

theorem destination_defaultOutput_iff (t : FileTree) (spec : Path) (compression : Compression) :
    t.destination (defaultOutput spec compression) = t.destination spec ↔
      spec.fileName? = none ∨ compression = .none ∧ spec.hasExtension "tar" = true := by
  cases hname : spec.fileName? with
  | none =>
    rw [defaultOutput, Path.withExtension_of_none hname]
    simp
  | some name =>
    obtain ⟨hslash, hext⟩ := extension_ne compression
    obtain ⟨front, hmoves, hrenamed, habsolute⟩ :=
      Path.exists_moves_withExtension hname hslash hext
    rw [← renamed_extension_iff hname, defaultOutput, destination, destination, start, start,
      habsolute, hrenamed, hmoves, locate_concat_down, locate_concat_down]
    simp

/-! ## Files after an archive was written -/

theorem fileAt?_of_writeTo (hlinks : t.Unlinked) (h : (a.writeTo p).runOn t = (.ok (), t'))
    (loc : Location) :
    t'.fileAt? loc = if loc = t.destination p then some a.bytes else t.fileAt? loc := by
  obtain ⟨mid, hgrown, hfurnished, hwrite⟩ := exists_of_writeTo h
  obtain ⟨executable, hopen, rfl⟩ := put_of_writeFile (hlinks.grown hgrown) hwrite
  rw [fileAt?_put_file (ne_root_of_openForWriting hopen), destination_congr hgrown.current,
    fileAt?_of_furnished hgrown hfurnished]

theorem fileAt?_of_writeTo_error {e : FileFault} (h : (a.writeTo p).runOn t = (.error e, t'))
    (loc : Location) : t'.fileAt? loc = t.fileAt? loc := by
  obtain ⟨hgrown, hfurnished⟩ := grown_makeAbove p t
  have hmade := fileAt?_of_furnished hgrown hfurnished loc
  rw [writeTo_eq, Disk.runOn_bind] at h
  rcases habove : (makeAbove p).runOn t with ⟨_ | _, mid⟩
  · rw [habove] at h hmade
    cases h
    exact hmade
  · rw [habove] at h hmade
    dsimp only at h
    rw [Disk.runOn_change] at h
    split at h
    · cases h
    · cases h
      exact hmade

theorem grown_of_writeTo (h : (a.writeTo p).runOn t = (.ok (), t')) :
    Grown (fun _ => true) t t' := by
  obtain ⟨mid, hgrown, -, hwrite⟩ := exists_of_writeTo h
  exact (hgrown.mono (by simp)).trans (grown_of_writeFile hwrite fun _ _ => rfl)

/-! ## Writing once more -/

/-- The directories above a file are there. -/
theorem makeAbove_again {mid : FileTree} {written : Location → Bool}
    (h : (makeAbove p).runOn t = (.ok (), mid)) (hgrown : Grown written mid t') {name : String}
    (hname : p.fileName? = some name) (hspelling : checkSpelling p = .ok ()) :
    (makeAbove p).runOn t' = (.ok (), t') := by
  obtain ⟨front, hmoves⟩ := Path.exists_moves_of_fileName? hname
  obtain ⟨above, hparent, hfront, hbeginning, -, -⟩ := Path.exists_parent hmoves
  unfold makeAbove at h ⊢
  rw [hparent] at h ⊢
  dsimp only at h ⊢
  split
  · next htext =>
    rw [if_pos htext] at h
    have hspelled : checkSpelling above = .ok () :=
      (checkSpelling_of_beginning hspelling hbeginning).resolve_left fun hnil =>
        htext (String.toList_inj.mp hnil)
    have hleads : ∃ loc, t'.stat above = .ok (loc, .directory) := by
      by_cases habove : above.moves = []
      · -- the root, or the current directory
        exact ⟨_, stat_directory_iff.mpr ⟨hspelled, habove ▸ Walk.here⟩⟩
      · obtain ⟨loc, hstat⟩ := stat_of_makeDirectoriesWithin habove h
        obtain ⟨-, hleads⟩ := stat_directory_iff.mp hstat
        exact ⟨loc, stat_directory_iff.mpr ⟨hspelled, hleads.grown hgrown⟩⟩
    obtain ⟨loc, hstat⟩ := hleads
    exact runOn_makeDirectoriesWithin_of_stat hstat
  · rfl

theorem writeTo_again (h : (a.writeTo p).runOn t = (.ok (), t')) :
    (a.writeTo p).runOn t' = (.ok (), t') := by
  rw [writeTo_eq, Disk.runOn_bind] at h
  rcases habove : (makeAbove p).runOn t with ⟨_ | _, mid⟩
  · rw [habove] at h
    cases h
  · rw [habove] at h
    have hwrite := Disk.runOn_change_eq_ok_iff.mp h
    obtain ⟨⟨loc, executable⟩, hopen, -⟩ := Outcome.bind_eq_ok_iff.mp hwrite
    have hspot : ∃ spot, mid.follow p = .ok spot ∧ ∀ l, spot ≠ .occupied l .directory := by
      rcases follow_of_openForWriting hopen with hp | ⟨_, hp⟩ <;> exact ⟨_, hp, by simp⟩
    obtain ⟨spot, hspot, hfile⟩ := hspot
    obtain ⟨hspelling, hwalk⟩ := follow_eq_ok_iff.mp hspot
    obtain ⟨front, name, hmoves⟩ := hwalk.exists_down hfile
    have hgrown : Grown (fun _ => true) mid t' := grown_of_writeFile hwrite fun _ _ => rfl
    rw [writeTo_eq, Disk.runOn_bind,
      makeAbove_again habove hgrown (Path.fileName?_of_moves hmoves) hspelling]
    exact Disk.runOn_change_eq_ok_iff.mpr (writeFile_again hwrite)

/-- An archive is made again from sources that hold the same. -/
theorem buildWith_of_same_sources {deflate : Bytes → Bytes} {compression : Compression}
    {spec : ArchiveSpec} (h : buildWith deflate t compression spec = .ok a)
    (hsame : ∀ e ∈ spec.entries, ∀ bytes, ArchivePlan.readSource t e.source = .ok bytes →
      ArchivePlan.readSource t' e.source = .ok bytes) :
    buildWith deflate t' compression spec = .ok a := by
  obtain ⟨entries, hplan, h⟩ := Outcome.bind_eq_ok_iff.mp h
  obtain ⟨rows, hrows⟩ := ArchivePlan.contents_of_plan hplan
  have hrows' : ArchivePlan.contents t' spec = .ok rows := by
    have hboth := (List.forall₂_and_left _ _).mpr ⟨hsame, Outcome.mapM_eq_ok_iff.mp hrows⟩
    refine Outcome.mapM_eq_ok_iff.mpr (hboth.imp fun e row ⟨hsource, hrow⟩ => ?_)
    obtain ⟨hpath, hbytes⟩ := ArchivePlan.resolve_eq_ok_iff.mp hrow
    exact ArchivePlan.resolve_eq_ok_iff.mpr ⟨hpath, hsource _ hbytes⟩
  exact Outcome.bind_eq_ok_iff.mpr
    ⟨entries, (ArchivePlan.plan_congr hrows hrows' (.refl rows) entries).mp hplan, h⟩

end Archive

namespace Command

variable {c : Context} {r : ArchiveRequest} {spec : ArchiveSpec} {s s' : Session}

/-! ## What a run reads -/

/-- A run reads the description, and the files that its entries are made from. -/
inductive Reads (r : ArchiveRequest) (spec : ArchiveSpec) : Path → Prop
  | description : Reads r spec r.spec
  | source {e : ArchiveEntry} {path : Path} (he : e ∈ spec.entries)
      (hsource : e.source = .file path) : Reads r spec path

theorem readSource_file_eq_ok_iff {path : Path} {bytes : Bytes} :
    ArchivePlan.readSource t (.file path) = .ok bytes ↔ t.readBytes path = .ok bytes :=
  Outcome.mapError_eq_ok_iff

theorem exists_readBytes (hspec : ArchiveSpec.load t r.spec = .ok spec)
    (hbuild : Archive.buildWith c.host.deflate t r.compression spec = .ok a) {path : Path}
    (h : Reads r spec path) : ∃ bytes, t.readBytes path = .ok bytes := by
  cases h with
  | description =>
    cases hread : t.readBytes r.spec with
    | ok bytes => exact ⟨bytes, rfl⟩
    | error fault =>
      rw [ArchiveSpec.load, readText, hread] at hspec
      cases hspec
  | @source e path he hsource =>
    obtain ⟨entries, hplan, -⟩ := Outcome.bind_eq_ok_iff.mp hbuild
    obtain ⟨rows, hrows⟩ := ArchivePlan.contents_of_plan hplan
    obtain ⟨row, -, hrow⟩ := Outcome.exists_mem_of_mapM hrows he
    obtain ⟨-, hbytes⟩ := ArchivePlan.resolve_eq_ok_iff.mp hrow
    rw [hsource] at hbytes
    exact ⟨row.2, readSource_file_eq_ok_iff.mp hbytes⟩

/-- Where everything that is read holds the same, the same archive is made. -/
theorem prepares_again (hspec : ArchiveSpec.load t r.spec = .ok spec)
    (hbuild : Archive.buildWith c.host.deflate t r.compression spec = .ok a)
    (hsign : r.sign = false)
    (hsame : ∀ path, Reads r spec path → t'.readBytes path = t.readBytes path) :
    Prepares t' c r (.ok (a, none)) := by
  have hload : ArchiveSpec.load t' r.spec = .ok spec := by
    rw [← hspec, ArchiveSpec.load, ArchiveSpec.load, readText, readText,
      hsame r.spec .description]
  refine .ready hload (Archive.buildWith_of_same_sources hbuild ?_) (.unasked hsign)
  intro e he bytes hbytes
  cases hsource : e.source with
  | file path =>
    rw [hsource, readSource_file_eq_ok_iff] at hbytes
    rw [readSource_file_eq_ok_iff, hsame path (.source he hsource), hbytes]
  | text contents | bytes contents => rwa [hsource] at hbytes

/-! ## Runs without a signature -/

theorem runOn_deliver_unsigned (hsign : r.sign = false) (c : Context) (a : Archive) (s : Session) :
    (deliver c r a none).runOn s = match (a.writeTo r.outputPath).runOn s.tree with
      | (.ok _, t) => (.ok (), { s with
          tree := t, output := s.output ++ (a.sha256 ++ "  " ++ r.outputPath.text ++ "\n") })
      | (.error fault, t) => (.error (.build (.system fault)), { s with tree := t }) := by
  unfold deliver
  rw [runOn_bind]
  rcases h : (a.writeTo r.outputPath).runOn s.tree with ⟨fault | _, t⟩
  · rw [runOn_change_of_error h]
  · rw [runOn_change_of_ok h, hsign]
    rfl

/-- Without a signature a run fails before it writes, or delivers an archive. -/
theorem runOn_archive_unsigned (hsign : r.sign = false) (c : Context) (s : Session) :
    (∃ e s₁, (archive c r).runOn s = (.error e, s₁) ∧ s₁.tree = s.tree) ∨
    ∃ spec a s₁, ArchiveSpec.load s.tree r.spec = .ok spec ∧
      Archive.buildWith c.host.deflate s.tree r.compression spec = .ok a ∧ s₁.tree = s.tree ∧
      s₁.output = s.output ∧ (archive c r).runOn s = (deliver c r a none).runOn s₁ := by
  obtain ⟨x, hx⟩ := exists_prepares s.tree c r
  obtain ⟨s₁, htree, houtput, hrun⟩ := runOn_archive hx
  cases hx with
  | badSpec | badContents | badSignature => exact .inl ⟨_, s₁, hrun, htree⟩
  | @ready spec a signature hspec hbuild hsigns =>
    cases hsigns with
    | unasked => exact .inr ⟨spec, a, s₁, hspec, hbuild, htree, houtput, hrun⟩
    | unpublished h | signed h => rw [hsign] at h; cases h

/-- The run has made this archive of this description. The archive stands at the place of the
output, and no other file has changed. -/
structure Makes (c : Context) (r : ArchiveRequest) (s s' : Session) (spec : ArchiveSpec)
    (a : Archive) : Prop where
  described : ArchiveSpec.load s.tree r.spec = .ok spec
  built : Archive.buildWith c.host.deflate s.tree r.compression spec = .ok a
  archive : s'.tree.fileAt? (s.tree.destination r.outputPath) = some a.bytes
  others : ∀ loc, loc ≠ s.tree.destination r.outputPath →
    s'.tree.fileAt? loc = s.tree.fileAt? loc

/-- Everything that was read is read again, and the next run does the same and changes nothing. -/
structure Repeatable (c : Context) (r : ArchiveRequest) (s s' : Session) (spec : ArchiveSpec)
    (a : Archive) : Prop where
  reads : ∀ path, Reads r spec path →
    ∃ bytes, s.tree.readBytes path = .ok bytes ∧ s'.tree.readBytes path = .ok bytes
  again : ∀ s₁, s₁.tree = s'.tree → ∃ s₂, (archive c r).runOn s₁ = (.ok (), s₂) ∧
    s₂.tree = s'.tree ∧ s₂.output = s₁.output ++ (a.sha256 ++ "  " ++ r.outputPath.text ++ "\n")

theorem repeatable_of_apart (c : Context) (hlinks : s.tree.Unlinked) (hsign : r.sign = false)
    (hspec : ArchiveSpec.load s.tree r.spec = .ok spec)
    (hbuild : Archive.buildWith c.host.deflate s.tree r.compression spec = .ok a)
    (hwrite : (a.writeTo r.outputPath).runOn s.tree = (.ok (), s'.tree))
    (hapart : ∀ path, Reads r spec path →
      s.tree.destination path ≠ s.tree.destination r.outputPath) :
    Repeatable c r s s' spec a := by
  have hreads : ∀ path, Reads r spec path →
      ∃ bytes, s.tree.readBytes path = .ok bytes ∧ s'.tree.readBytes path = .ok bytes := by
    intro path hpath
    obtain ⟨bytes, hbytes⟩ := exists_readBytes hspec hbuild hpath
    have hkept : s'.tree.fileAt? (s.tree.destination path) = some bytes := by
      rw [Archive.fileAt?_of_writeTo hlinks hwrite, if_neg (hapart path hpath)]
      exact hlinks.fileAt?_of_readBytes hbytes
    exact ⟨bytes, hbytes,
      (Archive.grown_of_writeTo hwrite).readBytes_of_fileAt? hlinks hbytes hkept⟩
  refine ⟨hreads, fun s₁ hs₁ => ?_⟩
  have hprepares : Prepares s₁.tree c r (.ok (a, none)) := by
    rw [hs₁]
    refine prepares_again hspec hbuild hsign fun path hpath => ?_
    obtain ⟨bytes, hbefore, hafter⟩ := hreads path hpath
    rw [hbefore, hafter]
  obtain ⟨s₂, htree, houtput, hrun⟩ := runOn_archive hprepares
  dsimp only at hrun
  rw [runOn_deliver_unsigned hsign, htree, hs₁, Archive.writeTo_again hwrite] at hrun
  exact ⟨_, hrun, rfl, congrArg (· ++ _) houtput⟩

/-- Where a run without an output of its own writes, and that it changes no other file. If nothing
that it reads is at that place, the run can be repeated. -/
theorem archive_changes_output_only (c : Context) {r : ArchiveRequest} {s : Session}
    (hlinks : s.tree.Unlinked) (houtput : r.output = none) (hsign : r.sign = false) :
    (s.tree.destination r.outputPath = s.tree.destination r.spec ↔
      r.spec.fileName? = none ∨ r.gzip = false ∧ r.spec.hasExtension "tar" = true) ∧
    (∀ e s', (archive c r).runOn s = (.error e, s') →
      ∀ loc, s'.tree.fileAt? loc = s.tree.fileAt? loc) ∧
    ∀ s', (archive c r).runOn s = (.ok (), s') → ∃ spec a, Makes c r s s' spec a ∧
      ((∀ path, Reads r spec path →
        s.tree.destination path ≠ s.tree.destination r.outputPath) →
          Repeatable c r s s' spec a) := by
  refine ⟨?_, fun e s' h loc => ?_, fun s' h => ?_⟩
  · have hgzip : r.compression = .none ↔ r.gzip = false := by
      unfold ArchiveRequest.compression
      cases r.gzip <;> simp
    rw [ArchiveRequest.outputPath, houtput, Option.getD_none,
      Archive.destination_defaultOutput_iff, hgzip]
  · rcases runOn_archive_unsigned hsign c s with ⟨e', s₁, hrun, htree⟩ |
      ⟨spec, a, s₁, -, -, htree, -, hrun⟩
    · rw [hrun] at h
      cases h
      rw [htree]
    · rw [hrun, runOn_deliver_unsigned hsign, htree] at h
      split at h
      · cases h
      · next fault t hwrite =>
        cases h
        exact Archive.fileAt?_of_writeTo_error hwrite loc
  · rcases runOn_archive_unsigned hsign c s with ⟨e', s₁, hrun, htree⟩ |
      ⟨spec, a, s₁, hspec, hbuild, htree, -, hrun⟩
    · rw [hrun] at h
      cases h
    · rw [hrun, runOn_deliver_unsigned hsign, htree] at h
      split at h
      · next _ t hwrite =>
        cases h
        have hfiles := Archive.fileAt?_of_writeTo hlinks hwrite
        refine ⟨spec, a, ⟨hspec, hbuild, ?_, fun loc hloc => ?_⟩, fun hapart => ?_⟩
        · exact (hfiles _).trans (if_pos rfl)
        · exact (hfiles loc).trans (if_neg hloc)
        · exact repeatable_of_apart c hlinks hsign hspec hbuild hwrite hapart
      · cases h

/-- A directory with two files and nothing else. -/
def twoFiles (name text other contents : String) : FileTree :=
  (((FileTree.empty ["home"]).put ["home"] .directory).put ["home", name]
    (.file (Bytes.ofText text) false)).put ["home", other] (.file (Bytes.ofText contents) false)

def distribution : FileTree :=
  twoFiles "a.txt" "a" "dist.yaml"
    "entries:\n  - { path: b.txt, text: b }\n  - { path: docs/a.txt, file: a.txt }\n"

def distributionSpec : ArchiveSpec :=
  ⟨[⟨"b.txt", .text "b"⟩, ⟨"docs/a.txt", .file ⟨"a.txt"⟩⟩], .strip, .standard⟩

def unsignedRequest : ArchiveRequest := ⟨⟨"dist.yaml"⟩, none, false, false, none⟩

theorem distribution_repeatable : distribution.Unlinked ∧ ∃ s' spec a,
    (archive ⟨.standard, console⟩ unsignedRequest).runOn ⟨distribution, "", ""⟩ = (.ok (), s') ∧
      Makes ⟨.standard, console⟩ unsignedRequest ⟨distribution, "", ""⟩ s' spec a ∧
      Repeatable ⟨.standard, console⟩ unsignedRequest ⟨distribution, "", ""⟩ s' spec a := by
  have hlinks : distribution.Unlinked := unlinked_of_rows (by decide +kernel)
  have hruns : ((archive ⟨.standard, console⟩ unsignedRequest).runOn
      ⟨distribution, "", ""⟩).1.isOk = true := by decide +kernel
  have hspec : ArchiveSpec.load distribution ⟨"dist.yaml"⟩ = .ok distributionSpec :=
    Outcome.toOption_eq_some_iff.mp (by decide +kernel)
  obtain ⟨_, s', hrun⟩ := Outcome.exists_of_isOk hruns
  obtain ⟨-, -, hmakes⟩ := archive_changes_output_only ⟨.standard, console⟩
    (r := unsignedRequest) (s := ⟨distribution, "", ""⟩) hlinks rfl rfl
  obtain ⟨spec, a, hmade, hrepeatable⟩ := hmakes s' hrun
  refine ⟨hlinks, s', spec, a, hrun, hmade, hrepeatable fun path hpath => ?_⟩
  cases hmade.described.symm.trans hspec
  cases hpath with
  | description => decide +kernel
  | source he hsource =>
    rcases List.mem_pair.mp he with rfl | rfl
    · cases hsource
    · cases hsource
      decide +kernel

/-- A description with the extension of its archive is overwritten by it, and so is a source that
has the name of the archive. -/
theorem archive_overwrites_what_it_reads :
    Archive.defaultOutput ⟨"dist.tar"⟩ .none = ⟨"dist.tar"⟩ ∧
    (let tree := twoFiles "a.txt" "a" "dist.tar" "entries:\n  - { path: a.txt, text: a }\n"
    let outcome := CommandLine.run console ["archive", "dist.tar"] tree
    outcome.code = 0 ∧
      outcome.tree.fileAt? ["home", "dist.tar"] ≠ tree.fileAt? ["home", "dist.tar"]) ∧
    (let tree := twoFiles "dist.tar" "old" "dist.yaml"
      "entries:\n  - { path: old.tar, file: dist.tar }\n"
    let outcome := CommandLine.run console ["archive", "dist.yaml"] tree
    outcome.code = 0 ∧
      outcome.tree.fileAt? ["home", "dist.tar"] ≠ tree.fileAt? ["home", "dist.tar"]) := by
  decide +kernel

end Command
end ModularBuild
