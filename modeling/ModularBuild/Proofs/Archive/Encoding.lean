import ModularBuild.Proofs.Archive.Layout
import ModularBuild.Proofs.Archive.Tar.RoundTrip

/-! # Encoding plans

Whether entries can be encoded depends on their paths alone: each of these must get a name, and
the first that gets none decides. The paths of a plan are spellings, so that only a NUL can stand
in the way. Planning lets NULs pass, and so there are plans that cannot be encoded; a NUL that
is not in the beginning of a long path is not noticed at all. -/

namespace ModularBuild

namespace Tar

/-- The part of the path that must be written into a header has no NUL. -/
def Nameable (path : String) : Prop := '\x00' ∉ textWithin nameSize path.toList

instance : DecidablePred Nameable := fun path =>
  inferInstanceAs (Decidable ('\x00' ∉ textWithin nameSize path.toList))

/-- Names for all of the paths, or the fault of the first that gets none. -/
def nameAll (paths : List String) : Except BuildError Unit :=
  paths.forM fun path => (naming path).map fun _ => ()

theorem encodeEntries_unit (entries : List PlannedEntry) :
    (encodeEntries entries).map (fun _ => ()) = nameAll (entries.map (·.path)) := by
  induction entries with
  | nil => rfl
  | cons e rest ih =>
    have hcons : nameAll ((e :: rest).map (·.path)) =
        ((naming e.path).map (fun _ => ()) >>= fun _ => nameAll (rest.map (·.path))) := rfl
    rw [hcons, ← ih, encodeEntries, encodeEntry]
    cases naming e.path with
    | error fault => rfl
    | ok n => cases encodeEntries rest <;> rfl

section
variable {paths : List String} (hspelling : ∀ path ∈ paths, Spelling path.toList)
include hspelling

theorem nameAll_eq_ok_iff : nameAll paths = .ok () ↔ ∀ path ∈ paths, Nameable path := by
  rw [nameAll, Outcome.forM_eq_ok_iff]
  refine forall₂_congr fun path hpath => ?_
  rw [Outcome.map_unit_eq_ok_iff, exists_naming_iff (hspelling path hpath), Nameable]

theorem nameAll_eq_error_iff {fault : BuildError} : nameAll paths = .error fault ↔
    ∃ before path after start, paths = before ++ path :: after ∧ (∀ p ∈ before, Nameable p) ∧
      StopsAt start (textWithin nameSize path.toList) ∧
      fault = .entryName (String.ofList start) .nulByte := by
  rw [nameAll, Outcome.forM_eq_error_iff]
  refine exists_congr fun before => exists_congr fun path => exists_congr fun after => ?_
  rw [exists_and_left]
  refine and_congr_right fun hsplit => ?_
  have hbefore := nameAll_eq_ok_iff fun p (hp : p ∈ before) =>
    hspelling p (hsplit ▸ List.mem_append_left _ hp)
  have hpath : path ∈ paths := hsplit ▸ List.mem_append_right _ List.mem_cons_self
  rw [← Outcome.forM_eq_ok_iff, ← nameAll, hbefore, Outcome.map_eq_error_iff,
    naming_eq_error_iff (hspelling path hpath), exists_and_left]

end

end Tar

namespace ArchivePlan

open Tar (Nameable)

variable {t : FileTree} {spec : ArchiveSpec} {entries : List PlannedEntry}

theorem spelling_of_plan (h : plan t spec = .ok entries) :
    ∀ path ∈ entries.map (·.path), Tar.Spelling path.toList := by
  intro path hpath
  obtain ⟨e, he, rfl⟩ := List.mem_map.mp hpath
  exact Tar.spelling_of_spelled (spelled_of_plan h he)

/-- A directory above a file can be named if the file can. -/
theorem nameable_paths_iff (h : plan t spec = .ok entries) :
    (∀ path ∈ entries.map (·.path), Nameable path) ↔
      ∀ described ∈ spec.entries, ∀ path, EntryPath.normalize described.path = .ok path →
        Nameable path := by
  constructor
  · intro hall described hdescribed path hpath
    exact hall path ((mem_paths_iff h).mpr
      ⟨path, ⟨described, hdescribed, hpath⟩, .inr rfl⟩)
  · intro hall path hpath
    obtain ⟨file, ⟨described, hdescribed, hfile⟩, hpath⟩ := (mem_paths_iff h).mp hpath
    have hnameable := hall described hdescribed file hfile
    rcases hpath with ⟨-, rest, -, -, habove⟩ | rfl
    · have hfront : path.toList <+: file.toList := ⟨rest, habove.symm⟩
      exact fun hnul => hnameable ((Tar.textWithin_prefix hfront).subset hnul)
    · exact hnameable

end ArchivePlan

namespace Compression

variable {entries : List PlannedEntry}

open Tar (Nameable StopsAt nameAll textWithin nameSize)

/-- Neither the contents nor what is done to the bytes afterwards can fail. -/
theorem encodeWith_unit (deflate : Bytes → Bytes) (compression : Compression)
    (entries : List PlannedEntry) :
    (compression.encodeWith deflate entries).map (fun _ => ()) =
      nameAll (entries.map (·.path)) := by
  rw [← Tar.encodeEntries_unit, encodeWith, Tar.encode]
  cases Tar.encodeEntries entries with
  | error fault => rfl
  | ok b => cases compression <;> rfl

theorem encodeWith_of_nameAll {deflate : Bytes → Bytes} {compression : Compression} :
    (∃ b, compression.encodeWith deflate entries = .ok b) ↔
      nameAll (entries.map (·.path)) = .ok () := by
  rw [← encodeWith_unit deflate compression, Outcome.map_unit_eq_ok_iff]

variable {t : FileTree} {spec : ArchiveSpec}

/-- A plan can be encoded exactly if no NUL is in the beginnings of the paths that are written into
headers. Otherwise the first such path gets no name, and the fault tells how far it was written. -/
theorem encodeWith_stops_at_nul (deflate : Bytes → Bytes) (compression : Compression)
    (h : ArchivePlan.plan t spec = .ok entries) :
    ((∃ b, compression.encodeWith deflate entries = .ok b) ↔
      ∀ described ∈ spec.entries, ∀ path, EntryPath.normalize described.path = .ok path →
        '\x00' ∉ textWithin nameSize path.toList) ∧
    ∀ fault, compression.encodeWith deflate entries = .error fault ↔
      ∃ before path after start, entries.map (·.path) = before ++ path :: after ∧
        (∀ p ∈ before, '\x00' ∉ textWithin nameSize p.toList) ∧
        StopsAt start (textWithin nameSize path.toList) ∧
        fault = .entryName (String.ofList start) .nulByte := by
  have hspelling := ArchivePlan.spelling_of_plan h
  refine ⟨?_, fun fault => ?_⟩
  · rw [encodeWith_of_nameAll, Tar.nameAll_eq_ok_iff hspelling]
    exact ArchivePlan.nameable_paths_iff h
  · rw [← Outcome.map_eq_error_iff (f := fun _ => ()), encodeWith_unit]
    exact Tar.nameAll_eq_error_iff hspelling

/-- Two files, one of which has a NUL that is not written into its header. -/
def muted : ArchiveSpec where
  entries := [⟨"d\\" ++ String.ofList (List.replicate 98 'x') ++ "\x00y", .text "z"⟩,
    ⟨"./a", .text ""⟩]
  timestamps := .strip
  permissions := .standard

theorem encodeWith_muted : ∃ entries, ArchivePlan.plan (.empty []) muted = .ok entries ∧
    ∃ b, Compression.none.encodeWith Gzip.stored entries = .ok b := by
  have hplan : (ArchivePlan.plan (.empty []) muted).isOk = true := by decide +kernel
  have hpaths : ∀ described ∈ muted.entries, (EntryPath.normalize described.path).toOption.all
      (fun path => decide (Nameable path)) = true := by decide +kernel
  obtain ⟨entries, h⟩ := Outcome.isOk_iff.mp hplan
  refine ⟨entries, h, (encodeWith_stops_at_nul Gzip.stored .none h).1.mpr ?_⟩
  intro described hdescribed path hpath
  have hnameable := hpaths described hdescribed
  rw [hpath] at hnameable
  exact of_decide_eq_true hnameable

/-- A path with a NUL is planned, and then there is no way to write it. -/
theorem planned_but_not_encoded :
    ArchivePlan.plan (.empty []) ⟨[⟨"a\x00b", .text "x"⟩], .strip, .standard⟩ =
      .ok [⟨"a\x00b", .file [120], 0o664⟩] ∧
    Compression.none.encodeWith Gzip.stored [⟨"a\x00b", .file [120], 0o664⟩] =
      .error (.entryName "" .nulByte) := by
  decide +kernel

end Compression
end ModularBuild
