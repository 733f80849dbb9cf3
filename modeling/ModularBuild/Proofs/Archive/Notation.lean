import ModularBuild.Archive.Spec.Notation
import ModularBuild.Proofs.Archive.OctalMode
import ModularBuild.Proofs.Archive.Tar.Field
import ModularBuild.Proofs.Yaml.Tree

/-! # Archive descriptions written and read again

Whatever is read has a notation: no text gives bytes, and every mode that is read is small enough
to be read again. A document that spells the notation out gives back the description, so a
description that was read once is not changed by any further writing and reading. -/

namespace ModularBuild

open Yaml (Value)
open Yaml.Decode (Gives Ensures)
open Yaml.Value

/-! ## Modes -/

namespace OctalMode

theorem of_mem_toDigits {mode : Nat} {c : Char} (h : c ∈ Nat.toDigits 8 mode) :
    ('0' ≤ c ∧ c.toNat < '0'.toNat + 8) ∧ Text.isBlank c = false := by
  obtain ⟨ds, -, hlt, -, hds⟩ := Tar.toDigits_octal mode
  rw [hds] at h
  obtain ⟨d, hd, rfl⟩ := List.mem_map.mp h
  have hdigit : ∀ d < 8, ('0' ≤ Nat.digitChar d ∧ (Nat.digitChar d).toNat < '0'.toNat + 8) ∧
      Text.isBlank (Nat.digitChar d) = false := by decide
  exact hdigit d (hlt d hd)

theorem numeral_toDigits (mode : Nat) : Text.Numeral 8 (Nat.toDigits 8 mode) mode where
  ne_nil := Nat.toDigits_ne_nil
  digit _ hc := (of_mem_toDigits hc).1
  value := Nat.ofDigitChars_toDigits (by decide) (by decide)

theorem documented_render {mode : Nat} (h : mode ≤ maxMode) : Documented (render mode) mode := by
  refine ⟨[], Nat.toDigits 8 mode, ?_, .inl rfl, numeral_toDigits mode, h⟩
  rw [render, String.toList_ofList, List.nil_append]
  exact {
    around := ⟨[], [], by simp⟩
    first := fun c hc => (of_mem_toDigits (List.mem_of_mem_head? hc)).2
    last := fun c hc => (of_mem_toDigits (List.mem_of_getLast? hc)).2 }

theorem parse?_render {mode : Nat} (h : mode ≤ maxMode) : parse? (render mode) = some mode :=
  parse?_eq_some_iff.mpr (documented_render h).tolerated

end OctalMode

namespace Permissions

variable {v : Value} {p : Permissions}

/-- Modes that are read again when they are written. -/
structure Bounded (p : Permissions) : Prop where
  file : p.fileMode ≤ OctalMode.maxMode
  dir : p.dirMode ≤ OctalMode.maxMode

theorem bounded_standard : standard.Bounded := ⟨by decide, by decide⟩

theorem ensures_readMode (v : Value) : Ensures (readMode v) (· ≤ OctalMode.maxMode) := by
  refine (Ensures.trivial _).bind fun raw _ => ?_
  split
  · next mode hmode => exact Ensures.pure (OctalMode.parse?_eq_some_iff_numeral.mp hmode).2
  · exact ensures_fail _ _

theorem gives_readMode {mode : Nat} (hmode : mode ≤ OctalMode.maxMode)
    (h : v.node.spells (.text (OctalMode.render mode)) = true) : Gives (readMode v) mode := by
  refine (gives_scalarText _ h).bind ?_
  rw [OctalMode.parse?_render hmode]
  exact Gives.pure mode

theorem ensures_read (v : Value) : Ensures (read v) Bounded := by
  refine ensures_fields
    (I := fun draft => (∀ m ∈ draft.fileMode, m ≤ OctalMode.maxMode) ∧
      ∀ m ∈ draft.dirMode, m ≤ OctalMode.maxMode)
    ⟨by simp, by simp⟩ (fun draft key value hdraft => ?_) (fun draft hdraft => ?_)
  · split
    · exact (ensures_once (ensures_readMode value)).bind fun m hm => Ensures.pure ⟨hm, hdraft.2⟩
    · split
      · exact (ensures_once (ensures_readMode value)).bind fun m hm =>
          Ensures.pure ⟨hdraft.1, hm⟩
      · exact Ensures.pure hdraft
  · exact (ensures_required hdraft.1).bind fun fileMode hfile =>
      (ensures_required hdraft.2).bind fun dirMode hdir => Ensures.pure ⟨hfile, hdir⟩

theorem gives_read (hp : p.Bounded) (hdepth : v.depth ≠ 0) (h : v.node.spells p.data = true) :
    Gives (read v) p := by
  refine gives_fields (s := (⟨some p.fileMode, some p.dirMode⟩ : Draft)) hdepth h
    (.cons ⟨some p.fileMode, none⟩ (fun w _ hw => ?_) (.cons _ (fun w _ hw => ?_) (.nil _)))
    (Gives.pure p)
  · exact (gives_once (gives_readMode hp.file hw)).bind (Gives.pure _)
  · exact (gives_once (gives_readMode hp.dir hw)).bind (Gives.pure _)

end Permissions

namespace ArchiveEntry

variable {v : Value} {e : ArchiveEntry} {d : Data}

theorem ensures_readSource (others : List (String × Yaml.Found)) :
    Ensures (readSource others) fun source => ∀ contents, source ≠ .bytes contents := by
  rw [readSource]
  split
  · next read hread =>
    -- the key that names a source is one of two, and neither stands for bytes
    obtain ⟨⟨key, found⟩, -, hsource⟩ := List.exists_of_findSome?_eq_some hread
    dsimp only [sourceOf?] at hsource
    split at hsource
    · cases hsource
      split
      · exact Ensures.pure (by simp)
      · exact ensures_fail _ _
    · split at hsource
      · cases hsource
        split
        · exact Ensures.pure (by simp)
        · exact ensures_fail _ _
      · cases hsource
  · exact ensures_fail _ _

theorem ensures_read (v : Value) : Ensures (read v) fun e => ∃ d, e.data? = some d := by
  refine ensures_fields (I := fun _ => True) True.intro (fun _ _ _ _ => Ensures.trivial _)
    fun draft _ => (Ensures.trivial _).bind fun path _ =>
      (ensures_readSource draft.others).bind fun source hsource => Ensures.pure ?_
  cases source with
  | file file => exact ⟨_, rfl⟩
  | text contents => exact ⟨_, rfl⟩
  | bytes contents => exact absurd rfl (hsource contents)

/-- An entry with one more field, which names the source. -/
theorem gives_read_of_source {path key text : String} {source : ContentSource}
    (hkey : key ≠ "path") (hsource : sourceOf? key (.scalar (.text text)) = some (pure source))
    (hdepth : v.depth ≠ 0)
    (h : v.node.spells (.object [("path", .text path), (key, .text text)]) = true) :
    Gives (read v) ⟨path, source⟩ := by
  refine gives_fields (s := (⟨some path, [(key, .scalar (.text text))]⟩ : Draft)) hdepth h
    (.cons ⟨some path, []⟩ (fun w _ hpath => ?_) (.cons _ (fun w _ htext => ?_) (.nil _)))
    ((Gives.pure path).bind ?_)
  · exact (gives_once (gives_scalarText _ hpath)).bind (Gives.pure _)
  · dsimp only
    rw [if_neg hkey]
    exact (gives_content htext).bind (Gives.pure _)
  · dsimp only [readSource]
    rw [List.findSome?_cons, hsource]
    exact (Gives.pure source).bind (Gives.pure _)

theorem gives_read (hd : e.data? = some d) (hdepth : v.depth ≠ 0) (h : v.node.spells d = true) :
    Gives (read v) e := by
  obtain ⟨path, source⟩ := e
  cases source with
  | file file =>
    cases hd
    exact gives_read_of_source (by decide) rfl hdepth h
  | text contents =>
    cases hd
    exact gives_read_of_source (by decide) rfl hdepth h
  | bytes contents => cases hd

end ArchiveEntry

theorem TimestampPolicy.lookup_name (policy : TimestampPolicy) :
    named.lookup policy.name = some policy := by
  cases policy <;> rfl

namespace ArchiveSpec

variable {v : Value} {spec : ArchiveSpec} {d : Data}

/-- What can be written so that it is read again. -/
structure Writable (spec : ArchiveSpec) : Prop where
  entries : ∀ e ∈ spec.entries, ∃ d, e.data? = some d
  permissions : spec.permissions.Bounded

theorem ensures_read (v : Value) : Ensures (read v) Writable := by
  refine ensures_fields
    (I := fun draft => (∀ es ∈ draft.entries, ∀ e ∈ es, ∃ d, ArchiveEntry.data? e = some d) ∧
      ∀ p ∈ draft.permissions, p.Bounded)
    ⟨by simp, by simp⟩ (fun draft key value hdraft => ?_) (fun draft hdraft => ?_)
  · split
    · exact (ensures_once (ensures_list ArchiveEntry.ensures_read)).bind fun es hes =>
        Ensures.pure ⟨hes, hdraft.2⟩
    split
    · exact (Ensures.trivial _).bind fun _ _ => Ensures.pure hdraft
    split
    · exact (ensures_once (Permissions.ensures_read value)).bind fun p hp =>
        Ensures.pure ⟨hdraft.1, hp⟩
    · exact Ensures.pure hdraft
  · -- what is missing is filled in: no entries, and the standard modes
    obtain ⟨entries, timestamps, permissions⟩ := draft
    refine Ensures.pure ⟨?_, ?_⟩
    · cases entries with
      | none => simp
      | some es => exact hdraft.1 es rfl
    · cases permissions with
      | none => exact Permissions.bounded_standard
      | some p => exact hdraft.2 p rfl

theorem gives_read (hspec : spec.Writable) (hd : spec.data? = some d) (hdepth : 2 < v.depth)
    (h : v.node.spells d = true) : Gives (read v) spec := by
  obtain ⟨ds, hds, hd⟩ := Option.bind_eq_some_iff.mp hd
  cases hd
  refine gives_fields
    (s := (⟨some spec.entries, some spec.timestamps, some spec.permissions⟩ : Draft)) (by omega) h
    (.cons ⟨some spec.entries, none, none⟩ (fun w hw hentries => ?_)
      (.cons ⟨some spec.entries, some spec.timestamps, none⟩ (fun w _ hname => ?_)
        (.cons _ (fun w hw hmodes => ?_) (.nil _)))) (Gives.pure spec)
  · have hread : List.Forall₂ (fun d e => ∀ w' : Value, w'.depth = w.depth - 1 →
        w'.node.spells d = true → Gives (ArchiveEntry.read w') e) ds spec.entries := by
      refine (Outcome.mapM_eq_some_iff.mp hds).flip.imp fun d e hd w' hw' hnode => ?_
      exact ArchiveEntry.gives_read hd (by omega) hnode
    exact (gives_once (gives_list (by omega) hentries hread)).bind (Gives.pure _)
  · exact (gives_once (gives_variant hname (TimestampPolicy.lookup_name _))).bind (Gives.pure _)
  · exact (gives_once (Permissions.gives_read hspec.permissions (by omega) hmodes)).bind
      (Gives.pure _)

theorem writable_of_ofYaml {yaml : String} (h : ofYaml yaml = .ok spec) : spec.Writable :=
  Yaml.of_decode (Outcome.mapError_eq_ok_iff.mp h) fun v _ _ => ensures_read v

theorem ofYaml_of_reads {text : String} (hspec : spec.Writable) (hd : spec.data? = some d)
    (h : Yaml.reads text d = true) : ofYaml text = .ok spec := by
  rw [ofYaml, Yaml.decode_of_reads h fun v hdepth hnode =>
    gives_read hspec hd (by rw [hdepth]; decide) hnode]
  rfl

/-- A description that was read has a notation, and reading it gives back the description, provided
that the text written for this one tree is read as this tree. -/
theorem ofYaml_toYaml {yaml : String} (h : ofYaml yaml = .ok spec)
    (hyaml : ∀ d, spec.data? = some d → Yaml.reads d.yaml d = true) :
    ∃ text, spec.toYaml? = some text ∧ ofYaml text = .ok spec := by
  have hspec := writable_of_ofYaml h
  obtain ⟨ds, hds⟩ := Outcome.exists_mapM_eq_some hspec.entries
  obtain ⟨d, hd⟩ : ∃ d, spec.data? = some d := by
    rw [data?, hds]
    exact ⟨_, rfl⟩
  exact ⟨d.yaml, by rw [toYaml?, hd]; rfl, ofYaml_of_reads hspec hd (hyaml d hd)⟩

/-- Fields in another order, modes with marks, blanks and leading zeros, and no timestamps. One of
the texts looks like a number and one like a mapping. -/
def handwritten : String :=
  "permissions:\n  dir_mode: ' 0o775'\n  file_mode: 0o0o600\nentries:\n" ++
    "- \x7btext: '0664', path: lib/version\x7d\n- file: ../a b\n  path: \"x: y\"\n"

def handwrittenSpec : ArchiveSpec where
  entries := [⟨"lib/version", .text "0664"⟩, ⟨"x: y", .file ⟨"../a b"⟩⟩]
  timestamps := .strip
  permissions := ⟨0o600, 0o775⟩

theorem ofYaml_handwritten : ofYaml handwritten = .ok handwrittenSpec ∧
    ∃ text, handwrittenSpec.toYaml? = some text ∧ ofYaml text = .ok handwrittenSpec := by
  have hread : ofYaml handwritten = .ok handwrittenSpec :=
    Outcome.toOption_eq_some_iff.mp (by decide +kernel)
  refine ⟨hread, ofYaml_toYaml hread ?_⟩
  intro d hd
  cases hd
  decide +kernel

end ArchiveSpec
end ModularBuild
