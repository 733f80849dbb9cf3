import ModularBuild.Archive.Build
import ModularBuild.Proofs.Archive.Plan
import ModularBuild.Proofs.Archive.Tar.Block
import ModularBuild.Proofs.Archive.Tar.Naming

/-! # Reading an archive back

An entry is read back from its own records, whatever follows them: a path that fits is read
from the header, any other from the record in front, where its NUL ends it. The list of
entries follows by induction on it, up to the two empty blocks. -/

namespace ModularBuild

namespace Tar

open Reader

/-- An entry of a plan whose path has no NUL, and whose numbers fit into the fields of a
header: a mode has four octal digits, and a size in memory has 64 bits. -/
structure Storable (e : PlannedEntry) : Prop where
  spelled : ArchivePlan.Spelled e
  no_nul : '\x00' ∉ e.path.toList
  path_size : (Bytes.ofText e.path).length + 1 < 2 ^ 64
  mode : e.mode ≤ 0o7777
  size : (contents e.kind).length < 2 ^ 64

/-- What is to be read of an entry. -/
def Member.ofEntry (e : PlannedEntry) : Member := ⟨e.path, e.kind, e.mode, 0, 0, 0, "", ""⟩

theorem spelling_of_spelled {e : PlannedEntry} (h : ArchivePlan.Spelled e) :
    Spelling e.path.toList := by
  obtain ⟨cs, hc, hp⟩ := h
  refine ⟨cs, hc, ?_⟩
  cases hk : e.kind with
  | directory => rw [hk] at hp; exact .inr hp
  | file b => rw [hk] at hp; exact .inl hp

theorem kind?_flag (kind : EntryKind) : kind? (flag kind).byte (contents kind) = some kind := by
  cases kind <;> rfl

theorem flag_ne_longName (kind : EntryKind) : (flag kind).byte ≠ 76 := by
  cases kind <;> simp [flag, Flag.byte]

/-- The record of an entry, under the name that is known for it. -/
theorem members?_entry {e : PlannedEntry} (h : Storable e) {longName : Option Bytes}
    {name : Bytes}
    (hn : longName.getD (untilNul (paddedField nameSize name)) = Bytes.ofText e.path)
    (rest : Bytes) :
    members? longName
        (record ⟨name, e.mode, (contents e.kind).length, flag e.kind⟩ (contents e.kind) ++
          rest) = do
      let (members, tail) ← members? none rest
      return (Member.ofEntry e :: members, tail) := by
  have hm : e.mode < 8 ^ 7 := Nat.lt_of_le_of_lt h.mode (by decide)
  rw [members?_record longName rest hm rfl h.size, if_neg (flag_ne_longName e.kind)]
  have hmember : member?
      (Header.heading ⟨name, e.mode, (contents e.kind).length, flag e.kind⟩)
      (Bytes.ofText e.path) (contents e.kind) = some (Member.ofEntry e) := by
    simp only [member?, Header.heading, kind?_flag, Bytes.text?_ofText]
    rfl
  simp only [Header.heading] at hmember ⊢
  rw [hn, hmember]
  rfl

/-- The record in front of a long path hands it on. -/
theorem members?_longName {e : PlannedEntry} (h : Storable e) (rest : Bytes) :
    members? none (record (longNameHeader (Bytes.ofText e.path).length)
        (Bytes.ofText e.path ++ [0]) ++ rest) =
      members? (some (Bytes.ofText e.path)) rest := by
  have hsize : (Bytes.ofText e.path ++ [0]).length = (Bytes.ofText e.path).length + 1 :=
    List.length_append
  have hz : 0 ∉ Bytes.ofText e.path := by
    have := Bytes.zero_not_mem_ofText h.no_nul
    rwa [String.ofList_toList] at this
  have hflag : (longNameHeader (Bytes.ofText e.path).length).flag.byte = 76 := rfl
  rw [members?_record none rest (show 0o644 < 8 ^ 7 by decide) hsize.symm (hsize ▸ h.path_size),
    if_pos hflag, untilNul_append hz (.inr rfl)]

theorem members?_encodeEntry {e : PlannedEntry} (h : Storable e) :
    ∃ b, encodeEntry e = .ok b ∧ ∀ rest, members? none (b ++ rest) = do
      let (members, tail) ← members? none rest
      return (Member.ofEntry e :: members, tail) := by
  have hz := Bytes.zero_not_mem_ofText h.no_nul
  rw [String.ofList_toList] at hz
  have hfront := textWithin_beginning nameSize e.path.toList
  obtain ⟨n, hn, hname⟩ := naming_spelling (spelling_of_spelled h.spelled)
    fun hnul => h.no_nul (hfront.subset hnul)
  refine ⟨_, by rw [encodeEntry, hn]; rfl, fun rest => ?_⟩
  rw [List.append_assoc]
  rcases hname with ⟨rfl, hfit⟩ | hbefore
  · have hname : Option.getD none (untilNul (paddedField nameSize (Bytes.ofText e.path))) =
        Bytes.ofText e.path := untilNul_paddedField hz hfit
    exact members?_entry h hname rest
  · rw [hbefore, members?_longName h]
    exact members?_entry h rfl rest

theorem members?_encodeEntries {entries : List PlannedEntry} (h : ∀ e ∈ entries, Storable e) :
    ∃ b, encodeEntries entries = .ok b ∧ ∀ rest members tail,
      members? none rest = some (members, tail) →
      members? none (b ++ rest) = some (entries.map Member.ofEntry ++ members, tail) := by
  induction entries with
  | nil => exact ⟨[], rfl, fun _ _ _ hr => hr⟩
  | cons e entries ih =>
    obtain ⟨first, hf, hfirst⟩ := members?_encodeEntry (h e List.mem_cons_self)
    obtain ⟨others, ho, hothers⟩ := ih fun e he => h e (List.mem_cons_of_mem _ he)
    refine ⟨first ++ others, by rw [encodeEntries, hf, ho]; rfl, fun rest members tail hr => ?_⟩
    rw [List.append_assoc, hfirst, hothers rest members tail hr]
    rfl

end Tar

namespace Compression

/-- Entries can be written without compression, and what is read back are these entries in
their order, owned by nobody and without a time, and the two empty blocks at the end. -/
theorem read?_encode (deflate : Bytes → Bytes) {entries : List PlannedEntry}
    (h : ∀ e ∈ entries, Tar.Storable e) :
    ∃ b, Compression.none.encodeWith deflate entries = .ok b ∧
      Tar.read? b =
        some (entries.map Tar.Member.ofEntry, Tar.zeros (2 * Tar.blockSize)) := by
  obtain ⟨b, hb, hread⟩ := Tar.members?_encodeEntries h
  refine ⟨b ++ Tar.trailer, ?_, ?_⟩
  · rw [encodeWith, Tar.encode, hb]
    rfl
  · rw [Tar.read?, hread _ _ _ Tar.members?_trailer, List.append_nil, Tar.trailer]

/-- A directory, and a file under it whose path is too long for a header. -/
def shipment : List PlannedEntry :=
  [⟨"lib/", .directory, 0o775⟩,
    ⟨"lib/" ++ String.ofList (List.replicate 100 'x'), .file [1, 2, 3], 0o664⟩]

theorem read?_encode_shipment :
    (∀ e ∈ shipment, Tar.Storable e) ∧
    ∃ b, Compression.none.encodeWith Gzip.stored shipment = .ok b ∧
      Tar.read? b = some
        ([⟨"lib/", .directory, 0o775, 0, 0, 0, "", ""⟩,
          ⟨"lib/" ++ String.ofList (List.replicate 100 'x'),
            .file [1, 2, 3], 0o664, 0, 0, 0, "", ""⟩],
        Tar.zeros 1024) := by
  have hdir : EntryPath.normalizeChars "lib".toList = .ok "lib".toList := by decide +kernel
  have hfile : EntryPath.normalizeChars ("lib/".toList ++ List.replicate 100 'x') =
      .ok ("lib/".toList ++ List.replicate 100 'x') := by decide +kernel
  have h : ∀ e ∈ shipment, Tar.Storable e := by
    rintro e he
    rcases List.mem_pair.mp he with rfl | rfl
    · exact ⟨⟨_, EntryPath.canonical_of_normalizeChars hdir, by decide +kernel⟩, by decide +kernel,
        by decide +kernel, by decide, by decide⟩
    · exact ⟨⟨_, EntryPath.canonical_of_normalizeChars hfile, by decide +kernel⟩, by decide +kernel,
        by decide +kernel, by decide, by decide⟩
  exact ⟨h, read?_encode Gzip.stored h⟩

end Compression
end ModularBuild
