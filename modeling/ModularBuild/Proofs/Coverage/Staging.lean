import Mathlib.Data.List.Pairwise
import ModularBuild.Proofs.Coverage.ClassSet
import ModularBuild.Proofs.Coverage.Walking
import ModularBuild.Proofs.FileTree.Making

/-! # Staging a merged set

A merge tells identities apart by their text, but staging puts all of them below one directory,
where a class may also be a directory on the way to another one. The check of the merge does not
see this. Staging into an empty directory succeeds exactly if no class is on the way to another
one and no path gets too long. The invariant of the run is that below the directory there are the
classes copied so far, what is above them, and nothing else. -/

namespace ModularBuild

open FileTree

/-! ## Names -/

namespace ClassArtifact

variable {a b : ClassArtifact}

/-- The names on the way to the class. -/
def names (a : ClassArtifact) : List String :=
  (Text.splitOn '/' a.identity.toList).map String.ofList

theorem names_ne_nil (a : ClassArtifact) : a.names ≠ [] := by
  rw [names, ne_eq, List.map_eq_nil_iff]
  exact Text.splitOn_ne_nil _ _

theorem forall_mem_names {P : String → Prop} : (∀ name ∈ a.names, P name) ↔
    ∀ piece ∈ Text.splitOn '/' a.identity.toList, P (.ofList piece) := List.forall_mem_map

theorem names_of_joinNames {names : List String} (hne : names ≠ [])
    (hnames : ∀ name ∈ names, IsName name) (h : a.identity = ClassTree.joinNames names) :
    a.names = names := by
  have htext : a.identity.toList = Text.joinWith ['/'] (names.map String.toList) := by
    rw [h]
    exact Text.toList_intercalate '/' names
  have hslash : ∀ piece ∈ names.map String.toList, '/' ∉ piece :=
    List.forall_mem_map.mpr fun name hname => (hnames name hname).2.1
  rw [ClassArtifact.names, htext, Text.splitOn_joinWith (by simpa using hne) hslash, List.map_map]
  simp [Function.comp_def]

theorem map_toList_names (a : ClassArtifact) :
    a.names.map String.toList = Text.splitOn '/' a.identity.toList := by
  rw [names, List.map_map]
  simp [Function.comp_def]

theorem identity_eq_of_names (h : a.names = b.names) : a.identity = b.identity := by
  rw [← String.toList_inj, ← Text.joinWith_splitOn '/' a.identity.toList, ← map_toList_names, h,
    map_toList_names, Text.joinWith_splitOn]

/-- The names lead along the identity. -/
theorem joinNames_names (a : ClassArtifact) : ClassTree.joinNames a.names = a.identity := by
  have htext : (ClassTree.joinNames a.names).toList =
      Text.joinWith ['/'] (a.names.map String.toList) := Text.toList_intercalate '/' a.names
  rw [← String.toList_inj, htext, map_toList_names, Text.joinWith_splitOn]

/-- The names of one class go on where those of the other end: it is in the way. -/
theorem names_prefix_iff : a.names <+: b.names ∧ a.names ≠ b.names ↔
    ∃ rest, b.identity = a.identity ++ "/" ++ rest := by
  constructor
  · rintro ⟨⟨more, hmore⟩, hne⟩
    have hrest : more.map String.toList ≠ [] := by
      rintro hnil
      rw [List.map_eq_nil_iff.mp hnil, List.append_nil] at hmore
      exact hne hmore
    have hpieces := congrArg (List.map String.toList) hmore
    rw [List.map_append, map_toList_names, map_toList_names] at hpieces
    refine ⟨String.ofList (Text.joinWith ['/'] (more.map String.toList)), ?_⟩
    rw [← String.toList_inj, ← Text.joinWith_splitOn '/' b.identity.toList, ← hpieces,
      Text.joinWith_append '/' (Text.splitOn_ne_nil _ _) hrest, Text.joinWith_splitOn]
    simp
  · rintro ⟨rest, hrest⟩
    have hsplit : b.names = a.names ++ (Text.splitOn '/' rest.toList).map String.ofList := by
      rw [names, names, ← List.map_append, ← Text.splitOn_append, hrest]
      simp
    rw [hsplit]
    refine ⟨List.prefix_append _ _, fun hsame => ?_⟩
    exact Text.splitOn_ne_nil _ _ (List.map_eq_nil_iff.mp (List.append_right_eq_self.mp hsame.symm))

end ClassArtifact

/-! ## Targets -/

section Targets
variable {a : ClassArtifact} {dir : Path}

def ClassArtifact.target (a : ClassArtifact) (dir : Path) : Path := dir.join ⟨a.identity⟩

variable (h : ∀ name ∈ a.names, IsName name)
include h

theorem ClassArtifact.isAbsolute_identity : (⟨a.identity⟩ : Path).isAbsolute = false := by
  refine Bool.eq_false_iff.mpr fun habsolute => ?_
  rw [Path.isAbsolute, beq_iff_eq, List.head?_eq_some_iff] at habsolute
  obtain ⟨rest, hrest⟩ := habsolute
  rw [forall_mem_names, show a.identity.toList = '/' :: rest from hrest,
    Text.splitOn_cons_sep] at h
  exact (h [] List.mem_cons_self).1 (by decide)

theorem ClassArtifact.moves_identity : (⟨a.identity⟩ : Path).moves = a.names.map .down := by
  rw [forall_mem_names] at h
  have hidle : (Text.splitOn '/' a.identity.toList).filter (fun piece => !Path.idle piece) =
      Text.splitOn '/' a.identity.toList := List.filter_eq_self.mpr fun piece hpiece => by
    rw [(h piece hpiece).idle_eq_false]
    rfl
  rw [Path.moves_eq, Path.onward, names, List.map_map]
  refine (congrArg (List.map _) hidle).trans (List.map_congr_left fun piece hpiece => ?_)
  exact (h piece hpiece).ofPiece_eq

theorem ClassArtifact.moves_target : (a.target dir).moves = dir.moves ++ a.names.map .down := by
  rw [target, Path.moves_join dir (isAbsolute_identity h), moves_identity h]

theorem ClassArtifact.isAbsolute_target : (a.target dir).isAbsolute = dir.isAbsolute :=
  dir.isAbsolute_join (isAbsolute_identity h)

theorem ClassArtifact.tidy_target : (a.target dir).Tidy := by
  obtain ⟨front, hsplit, -⟩ := dir.splitOn_join (isAbsolute_identity h)
  rw [forall_mem_names] at h
  obtain ⟨init, last, hlast⟩ := (List.eq_nil_or_concat' _).resolve_left
    (Text.splitOn_ne_nil '/' a.identity.toList)
  refine ⟨front ++ init, last, ?_, (h last (by simp [hlast])).idle_eq_false⟩
  rw [target, hsplit, List.append_assoc]
  exact congrArg _ hlast

theorem ClassArtifact.checkSpelling_target (hdir : checkSpelling dir = .ok ()) :
    checkSpelling (a.target dir) = .ok () ↔ (a.target dir).text.utf8ByteSize < maxPathBytes := by
  have hnul : '\x00' ∉ (a.target dir).chars := by
    intro hmem
    rcases Path.mem_chars_join hmem with hmem | hmem | hmem
    · exact (checkSpelling_eq_ok_iff.mp hdir).1 hmem
    · exact absurd hmem (by decide)
    · rcases Text.mem_of_mem_splitOn '/' hmem with hslash | ⟨piece, hpiece, hmem⟩
      · exact absurd hslash (by decide)
      · exact (forall_mem_names.mp h piece hpiece).2.2.1 (by simpa using hmem)
  rw [checkSpelling_eq_ok_iff]
  exact ⟨fun hok => hok.2.2, fun hsize => ⟨hnul, (tidy_target h).chars_ne_nil, hsize⟩⟩

end Targets

/-! ## Copying one class -/

/-- A class whose file can be read and that is called by names. -/
structure ClassArtifact.Copyable (a : ClassArtifact) (t : FileTree) : Prop where
  named : ∀ name ∈ a.names, IsName name
  readable : ∃ bytes, t.readBytes a.path = .ok bytes

namespace ClassSet

/-- The path can be made a directory, and then is an empty one. -/
structure Empties (t : FileTree) (dir : Path) (made : FileTree) (loc : Location) : Prop where
  makes : (makeDirectories dir).runOn t = (.ok (), made)
  directory : made.stat dir = .ok (loc, .directory)
  empty : made.below loc = []

theorem empties_of_stat {t : FileTree} {dir : Path} {loc : Location}
    (h : t.stat dir = .ok (loc, .directory)) (hempty : t.below loc = []) : Empties t dir t loc :=
  ⟨runOn_makeDirectoriesWithin_of_stat h, h, hempty⟩

/-- A directory that is not there yet, in one that is. -/
theorem empties_of_missing {t : FileTree} {dir : Path} {moves : List Path.Step} {name : String}
    {loc : Location} (hdir : dir.Tidy) (hspelling : checkSpelling dir = .ok ())
    (hmoves : dir.moves = moves ++ [.down name]) (hname : name.utf8ByteSize ≤ maxNameBytes)
    (h : t.LeadsTo dir.isAbsolute moves loc)
    (he : t.entry? (loc ++ [name]) = none) (hempty : t.below (loc ++ [name]) = []) :
    Empties t dir (t.put (loc ++ [name]) .directory) (loc ++ [name]) := by
  have hgrown : Grown (fun _ => false) t (t.put (loc ++ [name]) .directory) :=
    .put_vacant he (by simp)
  have hentry := entry?_put (t := t) (ne_root_of_vacant he) .directory
  have hmade : t.makeDirectory dir = .ok (t.put (loc ++ [name]) .directory) := by
    rw [makeDirectory_eq hdir hspelling hmoves hname h, he]
    rfl
  refine ⟨Provides.runOn_makeDirectoriesWithin (by simp [hmoves]) (.inl hmade),
    stat_directory_iff.mpr ⟨hspelling, ?_⟩, below_eq_nil_iff.mpr fun names hne => ?_⟩
  · rw [hmoves]
    exact (h.grown hgrown).down hname (by rw [hentry, if_pos rfl])
  · rw [hentry, if_neg (by simpa using hne), below_eq_nil_iff.mp hempty names hne]

/-- Neither class is in the way of the other, nor are they in the same place. -/
def Apart (a b : ClassArtifact) : Prop := ¬ a.names <+: b.names ∧ ¬ b.names <+: a.names

/-- Below the location there are the classes that are done and the directories above them. -/
structure Staged (made now : FileTree) (loc : Location) (done : List ClassArtifact) : Prop where
  grown : Grown (fun _ => false) made now
  file : ∀ b ∈ done, ∃ bytes executable,
    now.entry? (loc ++ b.names) = some (.file bytes executable)
  through : ∀ b ∈ done, now.Through loc b.names.dropLast
  only : ∀ l e, l ≠ [] → now.entry? (loc ++ l) = some e →
    ∃ b ∈ done, l <+: b.names ∧ (l ≠ b.names → e = .directory)

variable {t made now now' : FileTree} {loc : Location} {done : List ClassArtifact}
  {a : ClassArtifact} {dir : Path}

theorem copyClass_eq {above : Path} (h : (a.target dir).parent? = some above) :
    copyClass dir a = (do
      makeDirectories above
      Disk.change (·.copyFile a.path (a.target dir))) := by
  rw [ClassArtifact.target] at h
  unfold copyClass
  simp only [h]
  rfl

theorem exists_moves_target (hnamed : ∀ name ∈ a.names, IsName name) (dir : Path) :
    ∃ (init : List String) (last : String), a.names = init ++ [last] ∧
      (a.target dir).moves = dir.moves ++ init.map .down ++ [.down last] := by
  obtain ⟨init, last, hnames⟩ := (List.eq_nil_or_concat' _).resolve_left a.names_ne_nil
  refine ⟨init, last, hnames, ?_⟩
  rw [ClassArtifact.moves_target hnamed, hnames, List.map_append, List.append_assoc]
  rfl

/-- A class that is copied finds the directories above its target made. -/
theorem exists_of_copyClass (hnamed : ∀ name ∈ a.names, IsName name)
    (h : (copyClass dir a).runOn now = (.ok (), now')) :
    ∃ above mid, (makeDirectories above).runOn now = (.ok (), mid) ∧
      mid.copyFile a.path (a.target dir) = .ok now' := by
  obtain ⟨init, last, -, hmoves⟩ := exists_moves_target hnamed dir
  obtain ⟨above, hparent, -⟩ := Path.exists_parent hmoves
  rw [copyClass_eq hparent, Disk.runOn_bind] at h
  rcases hmake : (makeDirectories above).runOn now with ⟨_ | _, mid⟩
  · rw [hmake] at h
    cases h
  · rw [hmake] at h
    exact ⟨above, mid, hmake, Disk.runOn_change_eq_ok_iff.mp h⟩

theorem copyFile_vacant {source target : Path} {bytes : Bytes}
    (hsource : t.readBytes source = .ok bytes) (htarget : t.follow target = .ok (.vacant loc)) :
    ∃ bytes executable, t.copyFile source target = .ok (t.put loc (.file bytes executable)) := by
  obtain ⟨⟨l, e⟩, hstat, hbytes⟩ := Outcome.bind_eq_ok_iff.mp hsource
  cases e with
  | file bytes executable =>
    have hopen : t.openForWriting target = .ok (loc, false) := by rw [openForWriting, htarget]
    refine ⟨if loc = l then [] else bytes, executable, ?_⟩
    rw [copyFile, hstat]
    change (t.openForWriting target >>= fun dest => _) = _
    rw [hopen]
    rfl
  | directory | link => cases hbytes

theorem prefix_dropLast {x y : List String} (h : x <+: y) (hne : x ≠ y) : x <+: y.dropLast := by
  rcases List.eq_nil_or_concat' y with rfl | ⟨init, last, rfl⟩
  · exact absurd (List.prefix_nil.mp h) hne
  · rw [List.dropLast_concat]
    exact (List.prefix_concat_iff.mp h).resolve_left hne

namespace Staged

variable {mid : FileTree} {init : List String} {last : String} (hs : Staged made now loc done)
  (hnames : a.names = init ++ [last])
include hs hnames

/-- No file is in the way of a class that is apart from those done. -/
theorem passable (hapart : ∀ b ∈ done, Apart a b) {front : List String} (hfront : front <+: init)
    (hne : front ≠ []) : now.Passable (loc ++ front) := by
  cases he : now.entry? (loc ++ front) with
  | none => exact .inl he
  | some e =>
    obtain ⟨b, hb, -, hdirectory⟩ := hs.only front e hne he
    refine .inr (he.trans (congrArg some (hdirectory ?_)))
    rintro rfl
    exact (hapart b hb).2 (hnames ▸ hfront.trans (List.prefix_append _ _))

theorem vacant (hlaid : Laid now mid loc init) (hapart : ∀ b ∈ done, Apart a b) :
    mid.entry? (loc ++ a.names) = none := by
  refine Option.eq_none_iff_forall_ne_some.mpr fun e he => ?_
  rcases hlaid.only _ _ he with hbefore | ⟨-, front, hfront, -, hloc⟩
  · obtain ⟨b, hb, hbelow, -⟩ := hs.only _ e a.names_ne_nil hbefore
    exact (hapart b hb).1 hbelow
  · rw [← List.append_cancel_left hloc, hnames] at hfront
    have hlength := hfront.length_le
    rw [List.length_append, List.length_singleton] at hlength
    omega

/-- Once its file is put there, a class is done too. -/
theorem put (hlaid : Laid now mid loc init) (hvacant : mid.entry? (loc ++ a.names) = none)
    (bytes : Bytes) (executable : Bool) :
    Staged made (mid.put (loc ++ a.names) (.file bytes executable)) loc (a :: done) := by
  have hput : Grown (fun _ => false) mid (mid.put (loc ++ a.names) (.file bytes executable)) :=
    .put_vacant hvacant (by simp)
  have hafter := hlaid.grown.trans hput
  have hentry := entry?_put (t := mid) (ne_root_of_vacant hvacant) (.file bytes executable)
  refine ⟨hs.grown.trans hafter, List.forall_mem_cons.mpr ⟨?_, fun b hb => ?_⟩,
    List.forall_mem_cons.mpr ⟨?_, fun b hb => (hs.through b hb).grown hafter⟩,
    fun l e hne he => ?_⟩
  · exact ⟨bytes, executable, by rw [hentry, if_pos rfl]⟩
  · obtain ⟨bytes, executable, hfile⟩ := hs.file b hb
    obtain ⟨bytes', executable', hfile', -⟩ := hafter.file _ bytes executable hfile
    exact ⟨bytes', executable', hfile'⟩
  · rw [hnames, List.dropLast_concat, ← hnames]
    exact hlaid.through.grown hput
  · rw [hentry] at he
    split at he
    · next hl =>
      have hself := List.append_cancel_left hl
      exact ⟨a, List.mem_cons_self, hself ▸ List.prefix_rfl, fun hother => absurd hself hother⟩
    · rcases hlaid.only _ e he with hbefore | ⟨hdirectory, front, hfront, -, hl⟩
      · obtain ⟨b, hb, hfacts⟩ := hs.only l e hne hbefore
        exact ⟨b, List.mem_cons_of_mem _ hb, hfacts⟩
      · rw [List.append_cancel_left hl]
        exact ⟨a, List.mem_cons_self, hnames ▸ hfront.trans (List.prefix_append _ _),
          fun _ => hdirectory⟩

omit hnames

/-- A class that is apart from those done is copied. -/
theorem exists_copy (hc : a.Copyable made) (hdir : made.stat dir = .ok (loc, .directory))
    (hsize : (a.target dir).text.utf8ByteSize < maxPathBytes) (hapart : ∀ b ∈ done, Apart a b) :
    ∃ now', (copyClass dir a).runOn now = (.ok (), now') ∧ Staged made now' loc (a :: done) := by
  obtain ⟨hdirSpelling, hleads⟩ := stat_directory_iff.mp hdir
  obtain ⟨init, last, hnames, hmoves⟩ := exists_moves_target hc.named dir
  have hspelling := (ClassArtifact.checkSpelling_target hc.named hdirSpelling).mpr hsize
  have hlengths : ∀ name ∈ init ++ [last], name.utf8ByteSize ≤ maxNameBytes :=
    fun name hname => (hc.named name (hnames ▸ hname)).2.2.2
  have hnow : now.LeadsTo (a.target dir).isAbsolute dir.moves loc := by
    rw [ClassArtifact.isAbsolute_target hc.named]
    exact hleads.grown hs.grown
  -- first the directories above the class, then the class
  obtain ⟨above, hparent, hmovesAbove, hbeginning, habsolute, htidy⟩ := Path.exists_parent hmoves
  obtain ⟨mid, hrun, hlaid⟩ := exists_makeDirectoriesWithin (Nat.lt_succ_self above.chars.length)
    (checkSpelling_of_beginning hspelling hbeginning) hmovesAbove (fun hne => htidy (by simp [hne]))
    (habsolute ▸ hnow) (List.forall_mem_append.mp hlengths).1
    fun front => hs.passable hnames hapart
  have hvacant := hs.vacant hnames hlaid hapart
  have hfollow : mid.follow (a.target dir) = .ok (.vacant (loc ++ a.names)) := by
    rw [hnames, ← List.append_assoc] at hvacant ⊢
    exact follow_vacant (ClassArtifact.tidy_target hc.named) hspelling hmoves
      (hlengths last (by simp))
      ((hnow.grown hlaid.grown).through (List.forall_mem_append.mp hlengths).1 hlaid.through)
      hvacant
  obtain ⟨source, hsource⟩ := hc.readable
  obtain ⟨bytes, executable, hcopy⟩ :=
    copyFile_vacant ((hs.grown.trans hlaid.grown).readBytes hsource) hfollow
  refine ⟨_, ?_, hs.put hnames hlaid hvacant bytes executable⟩
  rw [copyClass_eq hparent, Disk.runOn_bind, makeDirectories, hrun]
  exact Disk.runOn_change_eq_ok_iff.mpr hcopy

/-- A class that is copied is apart from those done, unless it is in the place of one. -/
theorem apart_of_copy (hc : a.Copyable made) (hdir : made.stat dir = .ok (loc, .directory))
    (hempty : made.below loc = []) (hnew : ∀ b ∈ done, a.names ≠ b.names)
    (hcopied : (copyClass dir a).runOn now = (.ok (), now')) :
    (a.target dir).text.utf8ByteSize < maxPathBytes ∧ ∀ b ∈ done, Apart a b := by
  obtain ⟨above, mid, hmake, hcopy⟩ := exists_of_copyClass hc.named hcopied
  have hgrown : Grown (fun _ => false) now mid := grown_of_makeDirectories hmake
  obtain ⟨dest, _, _, _, hopen, -⟩ := put_of_copyFile hcopy
  have hlinks : ∀ l target, l ≠ [] → mid.entry? (loc ++ l) ≠ some (.link target) := by
    intro l target hne hlink
    rw [((hs.grown.trans hgrown).link _ _), below_eq_nil_iff.mp hempty _ hne] at hlink
    cases hlink
  have hleads : mid.LeadsTo (a.target dir).isAbsolute dir.moves loc := by
    rw [ClassArtifact.isAbsolute_target hc.named]
    exact (stat_directory_iff.mp hdir).2.grown (hs.grown.trans hgrown)
  obtain ⟨spot, hfollow, hspot⟩ : ∃ spot, mid.follow (a.target dir) = .ok spot ∧
      spot.location = dest := by
    rcases follow_of_openForWriting hopen with hp | ⟨bytes, hp⟩ <;> exact ⟨_, hp, rfl⟩
  obtain ⟨hthrough, hplace⟩ :=
    hleads.through_of_follow (ClassArtifact.moves_target hc.named) hlinks hfollow
  obtain ⟨-, hfree⟩ := openForWriting_spot hopen
  rw [← hspot, hplace] at hfree
  refine ⟨(checkSpelling_eq_ok_iff.mp (follow_eq_ok_iff.mp hfollow).1).2.2, fun b hb =>
    ⟨fun hbelow => ?_, fun habove => ?_⟩⟩
  · -- a directory on the way to the class that is done
    have hdirectory := hgrown.directory _
      (hs.through b hb _ (prefix_dropLast hbelow (hnew b hb)) a.names_ne_nil)
    rw [hdirectory] at hfree
    rcases hfree with hfree | ⟨_, _, hfree⟩ <;> cases hfree
  · -- the class that is done on the way to this one
    have hdirectory := hthrough _ (prefix_dropLast habove (hnew b hb).symm) b.names_ne_nil
    obtain ⟨bytes, executable, hfile⟩ := hs.file b hb
    obtain ⟨_, _, hfile, -⟩ := hgrown.file _ bytes executable hfile
    rw [hdirectory] at hfile
    cases hfile

end Staged

/-! ## Copying all classes -/

theorem Apart.symm {b : ClassArtifact} (h : Apart a b) : Apart b a := And.symm h

instance : Std.Symm Apart := ⟨fun _ _ => Apart.symm⟩

/-- All classes are copied exactly if they are apart and no path is too long. -/
theorem fault_copyClasses_eq_none_iff {artifacts : List ClassArtifact}
    (hs : Staged made now loc done) (hcopyable : ∀ a ∈ artifacts, a.Copyable made)
    (hdir : made.stat dir = .ok (loc, .directory)) (hempty : made.below loc = [])
    (hnew : ∀ a ∈ artifacts, ∀ b ∈ done, a.names ≠ b.names)
    (hdistinct : artifacts.Pairwise fun a b => a.names ≠ b.names) :
    (copyClasses dir artifacts now).fault = none ↔
      (∀ a ∈ artifacts, (a.target dir).text.utf8ByteSize < maxPathBytes) ∧
        (∀ a ∈ artifacts, ∀ b ∈ done, Apart a b) ∧ artifacts.Pairwise Apart := by
  induction artifacts generalizing now done with
  | nil =>
    unfold copyClasses
    simp
  | cons a rest ih =>
    rw [List.forall_mem_cons] at hcopyable hnew
    rw [List.pairwise_cons] at hdistinct
    unfold copyClasses
    rcases hcopy : (copyClass dir a).runOn now with ⟨fault | _, now'⟩
    · constructor
      · intro h; cases h
      · rintro ⟨hsizes, hapart, -⟩
        obtain ⟨now'', hok, -⟩ := hs.exists_copy hcopyable.1 hdir (hsizes a List.mem_cons_self)
          (hapart a List.mem_cons_self)
        rw [hok] at hcopy
        cases hcopy
    · obtain ⟨hsize, hapart⟩ := hs.apart_of_copy hcopyable.1 hdir hempty hnew.1 hcopy
      obtain ⟨now'', hok, hs'⟩ := hs.exists_copy hcopyable.1 hdir hsize hapart
      rw [hok] at hcopy
      cases hcopy
      have hnew' : ∀ b ∈ rest, ∀ c ∈ a :: done, b.names ≠ c.names := fun b hb =>
        List.forall_mem_cons.mpr ⟨(hdistinct.1 b hb).symm, hnew.2 b hb⟩
      refine (ih hs' hcopyable.2 hnew' hdistinct.2).trans ?_
      simp only [List.forall_mem_cons, List.pairwise_cons]
      constructor
      · rintro ⟨hsizes, haparts, hpairs⟩
        exact ⟨⟨hsize, hsizes⟩, ⟨hapart, fun b hb => (haparts b hb).2⟩,
          fun b hb => (haparts b hb).1.symm, hpairs⟩
      · rintro ⟨⟨-, hsizes⟩, ⟨-, haparts⟩, hfirst, hpairs⟩
        exact ⟨hsizes, fun b hb => ⟨(hfirst b hb).symm, haparts b hb⟩, hpairs⟩

end ClassSet

/-! ## The classes of a merge -/

theorem ClassTree.named_of_walk {t : FileTree} {tree : ClassTree} {found : List ClassArtifact}
    {a : ClassArtifact} (hnamed : t.WellNamed) (hroot : t.isDirectory tree.root = true)
    (h : tree.walk t = .ok found) (ha : a ∈ found) : ∀ name ∈ a.names, IsName name := by
  obtain ⟨-, loc, places, -, -, hplaces, rfl⟩ := (walk_eq_ok_iff hnamed hroot).mp h
  obtain ⟨names, hnames, rfl⟩ := List.mem_map.mp ha
  have hclass := (hplaces names).mp hnames
  obtain ⟨bytes, executable, hfile⟩ := hclass.file
  have hok := hnamed.isName hfile
  rw [ClassArtifact.names_of_joinNames hclass.ne_nil hok rfl]
  exact hok

namespace ClassSet

variable {t : FileTree} {trees : List ClassTree} {rules : ExclusionRules} {s : ClassSet}

/-- What a merge keeps was found in one of the trees, and is kept under its identity. -/
theorem found_of_merge (h : merge t trees rules = .ok s) {identity : String} {a : ClassArtifact}
    (ha : s.artifacts.find? identity = some a) : a.identity = identity ∧
      ∃ tree ∈ trees, ∃ found, tree.walk t = .ok found ∧ a ∈ found := by
  obtain ⟨found, hfound, h⟩ := Outcome.bind_eq_ok_iff.mp h
  obtain ⟨parts, hparts, hfound⟩ := Outcome.bind_eq_ok_iff.mp hfound
  cases hfound
  rw [ofFound_eq] at h
  split at h
  · cases h
  · cases h
    rw [Table.find?_ofList, Option.map_eq_some_iff] at ha
    obtain ⟨pair, hlast, rfl⟩ := ha
    obtain ⟨hpair, hkey⟩ := List.mem_filter.mp (List.mem_of_getLast? hlast)
    obtain ⟨b, hb, rfl⟩ := List.mem_map.mp hpair
    obtain ⟨part, hpart, hmem⟩ := List.mem_flatten.mp (List.mem_filter.mp hb).1
    obtain ⟨tree, htree, hwalk⟩ := Outcome.exists_of_mem_mapM hparts hpart
    exact ⟨of_decide_eq_true hkey, tree, htree, part, hwalk, hmem⟩

theorem named_of_merge (hnamed : t.WellNamed)
    (hroots : ∀ tree ∈ trees, t.isDirectory tree.root = true) (h : merge t trees rules = .ok s)
    {a : ClassArtifact} (ha : a ∈ s.artifacts.values) : ∀ name ∈ a.names, IsName name := by
  obtain ⟨identity, hfind⟩ := Table.mem_values_iff.mp ha
  obtain ⟨-, tree, htree, found, hwalk, hfound⟩ := found_of_merge h hfind
  exact ClassTree.named_of_walk hnamed (hroots tree htree) hwalk hfound

theorem map_identity_values (h : merge t trees rules = .ok s) :
    s.artifacts.values.map (·.identity) = s.identities := by
  rw [Table.values, identities, Table.keys, List.map_map]
  refine List.map_congr_left fun row hrow => ?_
  exact (found_of_merge h (Table.find?_eq_some_iff.mpr hrow)).1

/-- One class of the set is a directory on the way to another one. -/
def Entangled (s : ClassSet) : Prop :=
  ∃ a ∈ s.identities, ∃ b ∈ s.identities, ∃ rest, b = a ++ "/" ++ rest

theorem pairwise_names_ne (h : merge t trees rules = .ok s) :
    s.artifacts.values.Pairwise fun a b => a.names ≠ b.names := by
  have hnodup : (s.artifacts.values.map (·.identity)).Nodup :=
    map_identity_values h ▸ s.artifacts.nodup_keys
  exact (List.pairwise_map.mp hnodup).imp fun hne hnames =>
    hne (ClassArtifact.identity_eq_of_names hnames)

theorem pairwise_apart_iff (h : merge t trees rules = .ok s) :
    s.artifacts.values.Pairwise Apart ↔ ¬ s.Entangled := by
  rw [Entangled, ← map_identity_values h]
  constructor
  · rintro hapart ⟨_, hfirst, _, hsecond, hrest⟩
    obtain ⟨a, ha, rfl⟩ := List.mem_map.mp hfirst
    obtain ⟨b, hb, rfl⟩ := List.mem_map.mp hsecond
    obtain ⟨hbeginning, hne⟩ := ClassArtifact.names_prefix_iff.mpr hrest
    have hab : a ≠ b := fun hab => hne (congrArg _ hab)
    exact (hapart.forall ha hb hab).1 hbeginning
  · intro hfree
    refine (pairwise_names_ne h).imp_of_mem fun ha hb hne =>
      ⟨fun hbeginning => ?_, fun hbeginning => ?_⟩
    · exact hfree ⟨_, List.mem_map_of_mem ha, _, List.mem_map_of_mem hb,
        ClassArtifact.names_prefix_iff.mp ⟨hbeginning, hne⟩⟩
    · exact hfree ⟨_, List.mem_map_of_mem hb, _, List.mem_map_of_mem ha,
        ClassArtifact.names_prefix_iff.mp ⟨hbeginning, hne.symm⟩⟩

theorem staged_nil {made : FileTree} {loc : Location} (h : made.below loc = []) :
    Staged made made loc [] := by
  refine ⟨.refl _ made, by simp, by simp, fun l e hne he => ?_⟩
  rw [below_eq_nil_iff.mp h _ hne] at he
  cases he

/-- Staging a merged set into an empty directory, or one that is yet to be made, succeeds exactly
if no class is on the way to another one and no target is too long. -/
theorem fault_stage_eq_none_iff {now made : FileTree} {dir : Path} {loc : Location}
    (hnamed : t.WellNamed) (hroots : ∀ tree ∈ trees, t.isDirectory tree.root = true)
    (hmerge : merge t trees rules = .ok s)
    (hreadable : ∀ a ∈ s.artifacts.values, ∃ bytes, now.readBytes a.path = .ok bytes)
    (hdir : Empties now dir made loc) : (s.stage dir now).fault = none ↔
      ¬ s.Entangled ∧ ∀ identity ∈ s.identities,
        (dir.join ⟨identity⟩).text.utf8ByteSize < maxPathBytes := by
  have hgrown : Grown (fun _ => false) now made := by
    have hmakes : Grown (fun _ => false) now ((makeDirectories dir).runOn now).2 :=
      grown_makeDirectories dir now
    rwa [hdir.makes] at hmakes
  have hcopyable : ∀ a ∈ s.artifacts.values, a.Copyable made := by
    intro a ha
    obtain ⟨bytes, hbytes⟩ := hreadable a ha
    exact ⟨named_of_merge hnamed hroots hmerge ha, bytes, hgrown.readBytes hbytes⟩
  have hrun := fault_copyClasses_eq_none_iff (staged_nil hdir.empty) hcopyable hdir.directory
    hdir.empty (by simp) (pairwise_names_ne hmerge)
  rw [stage, hdir.makes, hrun, pairwise_apart_iff hmerge, ← map_identity_values hmerge,
    List.forall_mem_map]
  simp only [List.not_mem_nil, false_implies, implies_true, true_and]
  exact and_comm

def compiled (paths : List String) : FileTree :=
  paths.foldl (fun t p => t.place ⟨p⟩ (.file [65] false)) (.empty ["w"])

def coreAndHttp : List ClassTree := [⟨"core", ⟨"core/classes"⟩⟩, ⟨"http", ⟨"http/classes"⟩⟩]

/-- The classes can be staged into a directory that is missing, and into one that is empty. -/
theorem fault_stage_packages :
    let t := (compiled ["core/classes/org/A.class", "http/classes/org/B.class"]).place ⟨"free"⟩
      .directory
    ∃ s, merge t coreAndHttp .standard = .ok s ∧ s.identities = ["org/A.class", "org/B.class"] ∧
      (s.stage ⟨"staged"⟩ t).fault = none ∧ ¬ s.Entangled ∧ (s.stage ⟨"free"⟩ t).fault = none := by
  intro t
  have hnamed : t.WellNamed := by
    change ∀ row ∈ t.rows.rows, ∀ name ∈ row.1, IsName name
    decide +kernel
  have hroots : ∀ tree ∈ coreAndHttp, t.isDirectory tree.root = true := by decide +kernel
  have hcurrent : (t.stat ⟨"."⟩).toOption = some (["w"], .directory) := by decide +kernel
  have hleads : t.LeadsTo false [] ["w"] :=
    (stat_directory_iff.mp (Outcome.toOption_eq_some_iff.mp hcurrent)).2
  have htidy : Path.Tidy ⟨"staged"⟩ := ⟨[], "staged".toList, by decide +kernel, by decide⟩
  have hspelling : checkSpelling ⟨"staged"⟩ = .ok () :=
    checkSpelling_eq_ok_iff.mpr (by decide +kernel)
  have hmoves : Path.moves ⟨"staged"⟩ = [] ++ [.down "staged"] := by decide +kernel
  have hmissing : Empties t ⟨"staged"⟩ (t.put ["w", "staged"] .directory) ["w", "staged"] :=
    empties_of_missing htidy hspelling hmoves (by decide) hleads (by decide +kernel)
      (by decide +kernel)
  have hfree : (t.stat ⟨"free"⟩).toOption = some (["w", "free"], .directory) := by decide +kernel
  have hempty : Empties t ⟨"free"⟩ t ["w", "free"] :=
    empties_of_stat (Outcome.toOption_eq_some_iff.mp hfree) (by decide +kernel)
  have hfacts : ((merge t coreAndHttp .standard).toOption.any fun s =>
      decide (s.identities = ["org/A.class", "org/B.class"] ∧ (s.stage ⟨"staged"⟩ t).fault = none ∧
        ∀ a ∈ s.artifacts.values, t.isFile a.path = true)) = true := by decide +kernel
  obtain ⟨s, hs, hfacts⟩ := (Option.any_eq_true _ _).mp hfacts
  obtain ⟨hidentities, hfault, hfiles⟩ := of_decide_eq_true hfacts
  have hmerge := Outcome.toOption_eq_some_iff.mp hs
  have hreadable : ∀ a ∈ s.artifacts.values, ∃ bytes, t.readBytes a.path = .ok bytes :=
    fun a ha => readBytes_of_isFile (hfiles a ha)
  have hapart : ¬ s.Entangled :=
    ((fault_stage_eq_none_iff hnamed hroots hmerge hreadable hmissing).mp hfault).1
  refine ⟨s, hmerge, hidentities, hfault, hapart, ?_⟩
  refine (fault_stage_eq_none_iff hnamed hroots hmerge hreadable hempty).mpr ⟨hapart, ?_⟩
  rw [hidentities]
  decide

/-- A directory of one module has the name of a class of the other. The merge takes both, although
they cannot be below one directory. -/
theorem stage_class_directory :
    let t := compiled ["core/classes/A.class", "http/classes/A.class/B.class"]
    (∀ tree ∈ coreAndHttp, t.isDirectory tree.root = true) ∧
    t.pathExists ⟨"staged"⟩ = false ∧
    ∃ s, merge t coreAndHttp .standard = .ok s ∧
      (∀ a ∈ s.artifacts.values, t.isFile a.path = true) ∧
      (s.stage ⟨"staged"⟩ t).fault = some .alreadyExists := by
  intro t
  have hfacts : ((merge t coreAndHttp .standard).toOption.any fun s =>
      decide ((∀ a ∈ s.artifacts.values, t.isFile a.path = true) ∧
        (s.stage ⟨"staged"⟩ t).fault = some .alreadyExists)) = true := by decide +kernel
  obtain ⟨s, hs, hfacts⟩ := (Option.any_eq_true _ _).mp hfacts
  exact ⟨by decide +kernel, by decide +kernel, s, Outcome.toOption_eq_some_iff.mp hs,
    of_decide_eq_true hfacts⟩

end ClassSet
end ModularBuild
