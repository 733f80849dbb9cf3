import ModularBuild.Proofs.FileTree.Places
import ModularBuild.Proofs.Signing
import ModularBuild.Proofs.Text.Utf8

/-! # Reading a checksum file

The digits of a digest are as many as a line of a checksum list has, so a reader of such lines cuts
the contents of a checksum file where the writer has joined them. What is left is the name with the
line feed behind it. A name that has a line feed itself ends the line too early: the first line is
then about another file, and the rest is no line of the list. -/

namespace ModularBuild

/-! ## Digits of a digest -/

/-- A digit of base sixteen in lower case. -/
def Bytes.IsHexDigit (c : Char) : Prop := ('0' ≤ c ∧ c ≤ '9') ∨ ('a' ≤ c ∧ c ≤ 'f')

instance (c : Char) : Decidable (Bytes.IsHexDigit c) := inferInstanceAs (Decidable (_ ∨ _))

namespace Bytes

theorem isHexDigit_hexDigit : ∀ n < 16, IsHexDigit (hexDigit n) := by decide

theorem hexValue?_hexDigit : ∀ n < 16, hexValue? (hexDigit n) = some n := by decide

theorem isHexDigit_of_mem_hexChars {b : Bytes} {c : Char} (h : c ∈ hexChars b) :
    IsHexDigit c := by
  obtain ⟨x, -, hc⟩ := List.mem_flatMap.mp h
  have hx := x.toNat_lt
  rcases List.mem_pair.mp hc with rfl | rfl
  · exact isHexDigit_hexDigit _ (by omega)
  · exact isHexDigit_hexDigit _ (by omega)

theorem ofHexChars?_hexChars (b : Bytes) : ofHexChars? (hexChars b) = some b := by
  induction b with
  | nil => rfl
  | cons x rest ih =>
    have hx := x.toNat_lt
    have hhalves : UInt8.ofNat (16 * (x.toNat / 16) + x.toNat % 16) = x := by
      rw [Nat.div_add_mod, UInt8.ofNat_toNat]
    have hcons : hexChars (x :: rest) =
        hexDigit (x.toNat / 16) :: hexDigit (x.toNat % 16) :: hexChars rest := rfl
    rw [hcons, ofHexChars?, hexValue?_hexDigit _ (by omega), hexValue?_hexDigit _ (by omega), ih]
    exact congrArg (fun y => some (y :: rest)) hhalves

end Bytes

theorem Digest.length_sha256 (message : Bytes) : (sha256 message).length = 32 := by
  simp [sha256, Sha256.wordBytes]

namespace Signature

variable {name : String} {bytes : Bytes} {s : Signature}

/-! ## Lines of checksum lists -/

/-- The text is one line of a checksum list: 64 digits of the digest, two spaces, and the name up
to the line feed. -/
def Lists (text : String) (digest : Bytes) (name : String) : Prop :=
  ∃ digits : List Char, text.toList = digits ++ ' ' :: ' ' :: (name.toList ++ ['\n']) ∧
    digits.length = 64 ∧ (∀ c ∈ digits, Bytes.IsHexDigit c) ∧
    Bytes.ofHexChars? digits = some digest ∧ '\n' ∉ name.toList

/-- The line of a checksum file. -/
def line (bytes : Bytes) (name : String) : String := Digest.sha256Hex bytes ++ "  " ++ name ++ "\n"

theorem toList_line (bytes : Bytes) (name : String) : (line bytes name).toList =
    (Digest.sha256 bytes).hexChars ++ ' ' :: ' ' :: (name.toList ++ ['\n']) := by
  simp [line, Digest.sha256Hex, Bytes.hex]

theorem length_digits (bytes : Bytes) : (Digest.sha256 bytes).hexChars.length = 64 := by
  rw [Bytes.length_hexChars, Digest.length_sha256]

/-- A line is read for one digest and one name only. -/
theorem lists_line_iff {digest : Bytes} {other : String} : Lists (line bytes name) digest other ↔
    '\n' ∉ name.toList ∧ digest = Digest.sha256 bytes ∧ other = name := by
  constructor
  · rintro ⟨digits, htext, hlength, -, hdigest, hfeed⟩
    rw [toList_line] at htext
    obtain ⟨rfl, hrest⟩ := List.append_inj htext ((length_digits bytes).trans hlength.symm)
    rw [Bytes.ofHexChars?_hexChars] at hdigest
    have hname : name = other := String.toList_inj.mp (by simpa using hrest)
    subst hname
    exact ⟨hfeed, (Option.some.inj hdigest).symm, rfl⟩
  · rintro ⟨hfeed, rfl, rfl⟩
    exact ⟨_, toList_line bytes other, length_digits bytes,
      fun c => Bytes.isHexDigit_of_mem_hexChars, Bytes.ofHexChars?_hexChars _, hfeed⟩

/-- A line feed in the name ends the line there. -/
theorem line_append (bytes : Bytes) (front rest : String) :
    line bytes (front ++ "\n" ++ rest) = line bytes front ++ rest ++ "\n" := by
  rw [← String.toList_inj]
  simp [line]

theorem eq_of_checksum (h : checksum name bytes = .ok s) :
    isPlainName name = true ∧ s = ⟨name ++ ".sha256", line bytes name⟩ := by
  unfold checksum at h
  split at h
  · next hname =>
    cases h
    exact ⟨hname, rfl⟩
  · cases h

theorem isPart_fileName (h : checksum name bytes = .ok s) : Path.IsPart s.fileName := by
  obtain ⟨hname, rfl⟩ := eq_of_checksum h
  exact Path.isPart_append (isPlainName_iff.mp hname).slash (by decide) (by decide)

/-! ## Files in a directory -/

theorem runOn_writeInto_eq_ok_iff {t t' : FileTree} {dir : Path} :
    (s.writeInto dir).runOn t = (.ok (), t') ↔
      t.writeFile (s.pathIn dir) (Bytes.ofText s.contents) = .ok t' := Disk.runOn_change_eq_ok_iff

/-- The signature is written, under its name, in the directory with this location. -/
structure WrittenIn (s : Signature) (t : FileTree) (dir : Path) (loc : Location) : Prop where
  succeeds : (∃ t', (s.writeInto dir).runOn t = (.ok (), t')) ↔
    FileTree.checkSpelling (s.pathIn dir) = .ok () ∧
      s.fileName.utf8ByteSize ≤ FileTree.maxNameBytes ∧
      t.entry? (loc ++ [s.fileName]) ≠ some .directory
  put : ∀ t', (s.writeInto dir).runOn t = (.ok (), t') → ∃ executable,
    t' = t.put (loc ++ [s.fileName]) (.file (Bytes.ofText s.contents) executable)
  reads : ∀ t', (s.writeInto dir).runOn t = (.ok (), t') →
    t'.readText (s.pathIn dir) = .ok s.contents

theorem writtenIn_of_isPart (hpart : Path.IsPart s.fileName) {t : FileTree} {dir : Path}
    {loc : Location} (hdir : t.LeadsTo dir.isAbsolute dir.moves loc)
    (hlink : ∀ target, t.entry? (loc ++ [s.fileName]) ≠ some (.link target)) :
    s.WrittenIn t dir loc := by
  have hleads : t.LeadsTo (s.pathIn dir).isAbsolute dir.moves loc := by
    rwa [pathIn, Path.isAbsolute_join dir hpart.isAbsolute_eq]
  refine ⟨?_, fun t' h => ?_, fun t' h => ?_⟩
  · simp only [runOn_writeInto_eq_ok_iff]
    exact FileTree.exists_writeFile_iff (hpart.tidy_join dir) (hpart.moves_join dir) hleads hlink
  · obtain ⟨executable, -, hput⟩ := FileTree.put_of_writeFile_down (hpart.tidy_join dir)
      (hpart.moves_join dir) hleads hlink (runOn_writeInto_eq_ok_iff.mp h)
    exact ⟨executable, hput⟩
  · have hread := FileTree.readBytes_of_writeFile (runOn_writeInto_eq_ok_iff.mp h)
    refine Outcome.bind_eq_ok_iff.mpr ⟨_, hread, ?_⟩
    rw [Bytes.text?_ofText]
    rfl

/-- What becomes of the name and the bytes that were signed. -/
structure Sidecar (name : String) (bytes : Bytes) (s : Signature) : Prop where
  lists : ∀ digest other, Lists s.contents digest other ↔
    '\n' ∉ name.toList ∧ digest = Digest.sha256 bytes ∧ other = name
  firstLine : ∀ front rest, name = front ++ "\n" ++ rest → '\n' ∉ front.toList →
    ∃ first, s.contents = first ++ rest ++ "\n" ∧ Lists first (Digest.sha256 bytes) front
  fileName : Path.IsPart s.fileName
  written : ∀ t dir loc, t.LeadsTo dir.isAbsolute dir.moves loc →
    (∀ target, t.entry? (loc ++ [s.fileName]) ≠ some (.link target)) → s.WrittenIn t dir loc

/-- A checksum file is read back as one line about the bytes and the name if the name has no line
feed. Otherwise it is no such line, and its first line is about the file whose name is what comes
before the line feed. In both cases it is written directly into the directory. -/
theorem sidecar_of_checksum (h : checksum name bytes = .ok s) : Sidecar name bytes s where
  lists digest other := by
    obtain ⟨-, rfl⟩ := eq_of_checksum h
    exact lists_line_iff
  firstLine front rest hname hfront := by
    obtain ⟨-, rfl⟩ := eq_of_checksum h
    subst hname
    exact ⟨_, line_append bytes front rest, lists_line_iff.mpr ⟨hfront, rfl, rfl⟩⟩
  fileName := isPart_fileName h
  written _ _ _ hdir hlink := writtenIn_of_isPart (isPart_fileName h) hdir hlink

theorem sidecar_dist : ∃ s, checksum "dist.tar" (Bytes.ofText "abc") = .ok s ∧
    Sidecar "dist.tar" (Bytes.ofText "abc") s := by
  have hsum : checksum "dist.tar" (Bytes.ofText "abc") = .ok _ :=
    checksum_of_plainName (by decide) _
  exact ⟨_, hsum, sidecar_of_checksum hsum⟩

/-- The name is signed, and no line of a checksum list is read from the file. -/
theorem no_line_for_line_feed : ∃ s, checksum "a\nb" (Bytes.ofText "abc") = .ok s ∧
    s.contents = line (Bytes.ofText "abc") "a" ++ "b" ++ "\n" ∧
    ∀ digest name, ¬ Lists s.contents digest name := by
  have hname : "a\nb" = "a" ++ "\n" ++ "b" := by decide
  rw [hname]
  have hsum : checksum ("a" ++ "\n" ++ "b") (Bytes.ofText "abc") =
      .ok ⟨_, line (Bytes.ofText "abc") ("a" ++ "\n" ++ "b")⟩ :=
    checksum_of_plainName (by decide) _
  refine ⟨_, hsum, line_append _ "a" "b", fun digest name h => ?_⟩
  exact (lists_line_iff.mp h).1 (by decide)

end Signature
end ModularBuild
