import ModularBuild.Archive.Build
import ModularBuild.Proofs.Archive.Plan

/-! # Reproducible archives

An archive depends on nothing but the bytes under each canonical path. Two descriptions of
the same contents have the same plan, wherever the bytes come from and whatever else is asked
for. -/

namespace ModularBuild.Archive

/-- Descriptions of the same contents build the same archive or none, whatever the order of
the entries, the spelling of the paths, the kinds of the sources, the rest of the file system
and the times and permissions asked for, and however compressed bytes are packed. -/
theorem buildWith_congr (deflate : Bytes → Bytes) (compression : Compression)
    {t t' : FileTree} {spec spec' : ArchiveSpec} {rows rows' : List (String × Bytes)}
    (h : ArchivePlan.contents t spec = .ok rows) (h' : ArchivePlan.contents t' spec' = .ok rows')
    (hp : rows.Perm rows') (archive : Archive) :
    buildWith deflate t compression spec = .ok archive ↔
      buildWith deflate t' compression spec' = .ok archive := by
  unfold buildWith
  rw [Outcome.bind_eq_ok_iff, Outcome.bind_eq_ok_iff]
  constructor
  · rintro ⟨entries, he, hb⟩
    exact ⟨entries, (ArchivePlan.plan_congr h h' hp entries).mp he, hb⟩
  · rintro ⟨entries, he, hb⟩
    exact ⟨entries, (ArchivePlan.plan_congr h h' hp entries).mpr he, hb⟩

/-- A directory with one file of notes. -/
def shelf : FileTree :=
  ((FileTree.empty ["home"]).put ["home"] .directory).put ["home", "notes"]
    (.file [111, 107] false)

def fromShelf : ArchiveSpec :=
  ⟨[⟨"a\\b", .file ⟨"notes"⟩⟩, ⟨"./c", .text "hi"⟩], .strip, .standard⟩

def fromMemory : ArchiveSpec :=
  ⟨[⟨"c", .bytes [104, 105]⟩, ⟨"a//b", .text "ok"⟩], .preserve, ⟨0, 0⟩⟩

theorem build_fromShelf_fromMemory :
    ArchivePlan.contents shelf fromShelf = .ok [("a/b", [111, 107]), ("c", [104, 105])] ∧
    ArchivePlan.contents (.empty []) fromMemory = .ok [("c", [104, 105]), ("a/b", [111, 107])] ∧
    (buildWith Gzip.stored shelf .none fromShelf).isOk = true ∧
    ∀ archive, buildWith Gzip.stored shelf .none fromShelf = .ok archive ↔
      buildWith Gzip.stored (.empty []) .none fromMemory = .ok archive := by
  have h : ArchivePlan.contents shelf fromShelf =
      .ok [("a/b", [111, 107]), ("c", [104, 105])] := by decide +kernel
  have h' : ArchivePlan.contents (.empty []) fromMemory =
      .ok [("c", [104, 105]), ("a/b", [111, 107])] := by decide +kernel
  exact ⟨h, h', by decide +kernel, buildWith_congr Gzip.stored .none h h' (.swap _ _ _)⟩

end ModularBuild.Archive
