import Mathlib.Data.List.Forall2
import ModularBuild.Coverage.ClassSet
import ModularBuild.Proofs.FileTree.Listing

/-! # The classes of a tree

A walk finds each regular file below the root whose name has the extension of classes, once and
in the order of the names on the way to it. Nothing else decides what is found, so the classes of
some trees are determined by what stands below their roots. A walk comes to its end exactly if it
can open every directory there: their paths get longer on the way down, and the system does not
take any path. -/

namespace ModularBuild.ClassTree

open FileTree

variable {t : FileTree} {tree : ClassTree} {trees : List ClassTree} {loc : Location}
  {names : List String} {a : ClassArtifact} {found found' : List ClassArtifact}

/-- The last of the names has the extension of classes. -/
def NamesClass (names : List String) : Prop :=
  ∃ front stem, stem ≠ "" ∧ names = front ++ [stem ++ "." ++ classExtension]

/-- Below the directory there is a regular file under the names, and they name a class. -/
structure IsClassFile (t : FileTree) (loc : Location) (names : List String) : Prop where
  file : ∃ bytes executable, t.entry? (loc ++ names) = some (.file bytes executable)
  name : NamesClass names

theorem IsClassFile.ne_nil (h : IsClassFile t loc names) : names ≠ [] := by
  obtain ⟨front, stem, -, hnames⟩ := h.name
  simp [hnames]

/-- The class under the names below the root. -/
def artifactAt (tree : ClassTree) (names : List String) : ClassArtifact :=
  ⟨joinNames names, tree.module, tree.pathTo names⟩

/-- The classes are those of all class files below the root, in the order of their names. -/
def Lists (t : FileTree) (tree : ClassTree) (found : List ClassArtifact) : Prop :=
  ∃ loc, ∃ places : List (List String), t.stat tree.root = .ok (loc, .directory) ∧
    places.Pairwise (· < ·) ∧ (∀ names, names ∈ places ↔ IsClassFile t loc names) ∧
    found = places.map tree.artifactAt

theorem Lists.unique (h : Lists t tree found) (h' : Lists t tree found') : found = found' := by
  obtain ⟨loc, places, hroot, hascending, hmem, rfl⟩ := h
  obtain ⟨loc', places', hroot', hascending', hmem', rfl⟩ := h'
  rw [hroot] at hroot'
  cases hroot'
  exact congrArg _ (Table.ascending_ext hascending hascending' fun names =>
    (hmem names).trans (hmem' names).symm)

theorem artifact?_eq_some_iff {e : FileEntry} (hne : names ≠ [])
    (hnames : ∀ name ∈ names, IsName name) : tree.artifact? (names, e) = some a ↔
      (∃ bytes executable, e = .file bytes executable) ∧ NamesClass names ∧
        a = tree.artifactAt names := by
  have hclass : (tree.artifactAt names).path.hasExtension classExtension = true ↔
      NamesClass names := by
    obtain ⟨front, last, rfl⟩ := (List.eq_nil_or_concat' names).resolve_left hne
    unfold artifactAt pathTo NamesClass
    rw [List.foldl_append, List.foldl_cons, List.foldl_nil,
      (hnames last (by simp)).isPart.hasExtension_join _ (by decide)]
    constructor
    · intro ⟨stem, hstem, hlast⟩
      exact ⟨front, stem, hstem, by rw [hlast]⟩
    · intro ⟨front', stem, hstem, hsplit⟩
      obtain ⟨-, hlast⟩ := List.append_inj' hsplit rfl
      exact ⟨stem, hstem, List.head_eq_of_cons_eq hlast⟩
  rw [← hclass]
  cases e with
  | file bytes executable =>
    by_cases hextension : (tree.artifactAt names).path.hasExtension classExtension = true
    · have hsome : tree.artifact? (names, .file bytes executable) =
          some (tree.artifactAt names) := if_pos hextension
      simp [hsome, hextension, eq_comm]
    · have hnone : tree.artifact? (names, .file bytes executable) = none := if_neg hextension
      simp [hnone, hextension]
  | directory | link => simp [artifact?]

theorem lists_below (hnamed : t.WellNamed) (hroot : t.stat tree.root = .ok (loc, .directory)) :
    Lists t tree ((t.below loc).filterMap tree.artifact?) := by
  have hrow : ∀ row ∈ t.below loc, ∀ a, tree.artifact? row = some a ↔
      (∃ bytes executable, row.2 = .file bytes executable) ∧ NamesClass row.1 ∧
        a = tree.artifactAt row.1 := by
    intro row hrow a
    obtain ⟨hne, he⟩ := mem_below_iff.mp hrow
    exact artifact?_eq_some_iff hne (hnamed.isName he)
  refine ⟨loc, ((t.below loc).filter fun row => (tree.artifact? row).isSome).map Prod.fst, hroot,
    (t.ascending_below loc).sublist (List.filter_sublist.map _), fun names => ?_, ?_⟩
  · rw [List.mem_map]
    constructor
    · intro ⟨row, hmem, hnames⟩
      obtain ⟨hbelow, hsome⟩ := List.mem_filter.mp hmem
      obtain ⟨a, ha⟩ := Option.isSome_iff_exists.mp hsome
      obtain ⟨⟨bytes, executable, hfile⟩, hclass, -⟩ := (hrow row hbelow a).mp ha
      obtain ⟨-, he⟩ := mem_below_iff.mp hbelow
      rw [← hnames]
      exact ⟨⟨bytes, executable, hfile ▸ he⟩, hclass⟩
    · intro h
      obtain ⟨bytes, executable, he⟩ := h.file
      have hbelow := mem_below_iff.mpr ⟨h.ne_nil, he⟩
      refine ⟨_, List.mem_filter.mpr ⟨hbelow, ?_⟩, rfl⟩
      rw [(hrow _ hbelow _).mpr ⟨⟨bytes, executable, rfl⟩, h.name, rfl⟩]
      rfl
  · rw [List.map_map, ← List.filterMap_eq_map, List.filterMap_filter]
    refine List.filterMap_congr fun row hbelow => ?_
    cases ha : tree.artifact? row with
    | none => simp
    | some a =>
      obtain ⟨-, -, rfl⟩ := (hrow row hbelow a).mp ha
      rfl

/-! ## Opening directories -/

/-- The root is a directory, and the system takes the path of every directory below it. -/
def Readable (t : FileTree) (tree : ClassTree) : Prop :=
  ∃ loc, t.stat tree.root = .ok (loc, .directory) ∧
    ∀ names, t.entry? (loc ++ names) = some .directory →
      checkSpelling (tree.pathTo names) = .ok ()

theorem openRow_eq_ok_iff {row : Location × FileEntry} : tree.openRow row = .ok () ↔
    (row.2 = .directory → checkSpelling (tree.pathTo row.1) = .ok ()) := by
  unfold openRow
  cases row.2 with
  | directory => simp [Outcome.mapError_eq_ok_iff]
  | file | link => simp

theorem readable_iff (hroot : t.stat tree.root = .ok (loc, .directory)) :
    Readable t tree ↔ ∀ row ∈ t.below loc, tree.openRow row = .ok () := by
  constructor
  · intro ⟨loc', hroot', hopens⟩ row hrow
    rw [hroot] at hroot'
    cases hroot'
    obtain ⟨-, he⟩ := mem_below_iff.mp hrow
    exact openRow_eq_ok_iff.mpr fun hdirectory => hopens row.1 (hdirectory ▸ he)
  · intro hopens
    refine ⟨loc, hroot, fun names he => ?_⟩
    by_cases hne : names = []
    · -- the root itself has been looked up
      obtain ⟨hspelling, -⟩ := follow_eq_ok_iff.mp (stat_eq_ok_iff.mp hroot)
      rw [hne]
      exact hspelling
    · exact openRow_eq_ok_iff.mp (hopens _ (mem_below_iff.mpr ⟨hne, he⟩)) rfl

theorem classesBelow_eq_ok_iff : tree.classesBelow t loc = .ok found ↔
    (∀ row ∈ t.below loc, tree.openRow row = .ok ()) ∧
      (t.below loc).filterMap tree.artifact? = found := by
  unfold classesBelow
  rw [Outcome.bind_eq_ok_iff, ← Outcome.forM_eq_ok_iff]
  constructor
  · intro ⟨_, hopens, h⟩
    exact ⟨hopens, Except.ok.inj h⟩
  · intro ⟨hopens, h⟩
    exact ⟨(), hopens, congrArg Except.ok h⟩

/-- The walk of a directory goes through what is below it, whether or not the root is a link to
it. -/
theorem walk_of_stat (h : t.stat tree.root = .ok (loc, .directory)) :
    tree.walk t = tree.classesBelow t loc := by
  obtain ⟨_, hspelling, hwalk⟩ := Outcome.bind_eq_ok_iff.mp (stat_eq_ok_iff.mp h)
  have hresolve : t.resolve false tree.root =
      t.resolveFrom false (maxLinks + 1) (t.start tree.root) tree.root.steps := by
    rw [resolve, hspelling]
    rfl
  unfold walk
  rw [hresolve]
  rcases t.resolveFrom_followLast (maxLinks + 1) (t.start tree.root) tree.root.steps with
    hsame | ⟨_, target, hlink⟩
  · rw [← hsame, hwalk]
  · rw [hlink]
    simp only [h]

/-- The walk of a directory comes to its end exactly if the tree can be read. -/
theorem exists_walk_iff (hroot : t.isDirectory tree.root = true) :
    (∃ found, tree.walk t = .ok found) ↔ Readable t tree := by
  obtain ⟨loc, hstat⟩ := stat_of_isDirectory hroot
  rw [walk_of_stat hstat, readable_iff hstat]
  simp [classesBelow_eq_ok_iff]

/-- Walking them shows that trees can be read. -/
theorem readable_of_walks
    (h : ∀ tree ∈ trees, t.isDirectory tree.root = true ∧ (tree.walk t).isOk = true) :
    ∀ tree ∈ trees, Readable t tree := by
  intro tree htree
  obtain ⟨hroot, hwalk⟩ := h tree htree
  exact (exists_walk_iff hroot).mp (Outcome.isOk_iff.mp hwalk)

/-- At its end the walk of a directory has found the classes of the tree. -/
theorem walk_eq_ok_iff (hnamed : t.WellNamed) (hroot : t.isDirectory tree.root = true) :
    tree.walk t = .ok found ↔ Readable t tree ∧ Lists t tree found := by
  obtain ⟨loc, hstat⟩ := stat_of_isDirectory hroot
  have hlists : Lists t tree ((t.below loc).filterMap tree.artifact?) := lists_below hnamed hstat
  rw [walk_of_stat hstat, classesBelow_eq_ok_iff, readable_iff hstat]
  refine and_congr_right fun _ => ?_
  constructor
  · intro h
    exact h ▸ hlists
  · intro h
    exact hlists.unique h

theorem Readable.isDirectory (h : Readable t tree) : t.isDirectory tree.root = true := by
  obtain ⟨loc, hstat, -⟩ := h
  simp [FileTree.isDirectory, hstat]

theorem Readable.walk_eq_ok_iff (h : Readable t tree) (hnamed : t.WellNamed) :
    tree.walk t = .ok found ↔ Lists t tree found :=
  (ClassTree.walk_eq_ok_iff hnamed h.isDirectory).trans (and_iff_right h)

/-! ## All trees -/

/-- The classes of all trees, one tree after the other. -/
def Found (t : FileTree) (trees : List ClassTree) (found : List ClassArtifact) : Prop :=
  ∃ parts, List.Forall₂ (Lists t) trees parts ∧ found = parts.flatten

theorem walkAll_eq_ok_iff (hnamed : t.WellNamed) (hreadable : ∀ tree ∈ trees, Readable t tree) :
    walkAll t trees = .ok found ↔ Found t trees found := by
  have hparts : ∀ parts, List.Forall₂ (fun tree part => tree.walk t = .ok part) trees parts ↔
      List.Forall₂ (Lists t) trees parts := by
    intro parts
    constructor
    · intro h
      exact ((List.forall₂_and_left trees parts).mpr ⟨hreadable, h⟩).imp fun tree part hwalk =>
        (hwalk.1.walk_eq_ok_iff hnamed).mp hwalk.2
    · intro h
      exact ((List.forall₂_and_left trees parts).mpr ⟨hreadable, h⟩).imp fun tree part hlists =>
        (hlists.1.walk_eq_ok_iff hnamed).mpr hlists.2
  unfold walkAll Found
  rw [Outcome.bind_eq_ok_iff]
  simp only [Outcome.mapM_eq_ok_iff, hparts]
  constructor
  · intro ⟨parts, hlists, h⟩
    cases h
    exact ⟨parts, hlists, rfl⟩
  · intro ⟨parts, hlists, h⟩
    exact ⟨parts, hlists, by rw [h]; rfl⟩

theorem exists_walkAll (hreadable : ∀ tree ∈ trees, Readable t tree) :
    ∃ found, walkAll t trees = .ok found := by
  obtain ⟨parts, hparts⟩ := Outcome.exists_mapM_eq_ok (f := walk t) fun tree htree =>
    (exists_walk_iff (hreadable tree htree).isDirectory).mpr (hreadable tree htree)
  exact ⟨parts.flatten, Outcome.bind_eq_ok_iff.mpr ⟨parts, hparts, rfl⟩⟩

end ModularBuild.ClassTree
