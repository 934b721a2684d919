import ArchiveOverlay.Proofs.Inflate.Delivery
import ArchiveOverlay.Zip.Content

namespace ArchiveOverlay

namespace Digest

theorem crc32_byte (b : UInt8) : crc32 ⟨#[b]⟩ = crcUpdate 0xffffffff b ^^^ 0xffffffff :=
  rfl

theorem crc32_x : (crc32 ⟨#[120]⟩).toNat = 2363233923 := by
  have hbyte : (crcOfByte 135).toNat = 1943803523 := by decide
  -- One entry of the table is computed, not all of them.
  rw [crc32_byte, crcUpdate, crcTable]
  simp [hbyte]

theorem crc32_y : (crc32 ⟨#[121]⟩).toNat = 4225443349 := by
  have hbyte : (crcOfByte 134).toNat = 81470997 := by decide
  rw [crc32_byte, crcUpdate, crcTable]
  simp [hbyte]

end Digest

namespace Zip

/-- With the test of the checksum, a source gives the same bytes; at their end it fails if the
checksum is another one. -/
theorem content_checked (crc : Nat) {s : Source} (hs : s.Steady) :
    (checked crc s).content = s.content := by
  rw [checked]
  split
  · rfl
  · split
    · rfl
    · exact hs.content_fault _

theorem finalFault_checked (crc : Nat) {s : Source} (hs : s.Steady) :
    (checked crc s).finalFault =
      s.finalFault.or
        (if (Digest.crc32 s.content).toNat = crc then none else some .invalidData) := by
  rw [checked]
  split
  next fault hfault => rw [hfault, Option.some_or]
  next hfault =>
    rw [hfault, Option.none_or]
    split
    · exact hfault
    · have hchecked : ({ s with fault := some .invalidData } : Source).Steady := hs
      rw [hchecked.finalFault]

/-- The content of a member as it arrives before its checksum is tested. -/
def Member.arriving (m : Member) (data : ByteArray) : Source :=
  if m.method = 0 then .ofContent (m.stored data) else Inflate.source (m.stored data)

theorem Member.steady_arriving (m : Member) (data : ByteArray) : (m.arriving data).Steady := by
  rw [arriving]
  split
  · exact Source.steady_ofContent _
  · exact Inflate.steady_source _

theorem Member.finalFault_arriving {m : Member} {data : ByteArray} {fault : IoFault}
    (h : (m.arriving data).finalFault = some fault) :
    m.method ≠ 0 ∧ (Inflate.source (m.stored data)).finalFault = some fault := by
  rw [arriving] at h
  split at h
  · rw [Source.finalFault_ofContent] at h
    cases h
  next hmethod => exact ⟨hmethod, h⟩

/-- Whether a member can be read does not depend on its bytes. -/
theorem Member.source?_eq {m : Member} {data : ByteArray} {source : Source}
    (h : m.source? data = some source) :
    (m.method = 0 ∨ m.method = 8) ∧
      ∀ data', m.source? data' = some (checked m.crc (m.arriving data')) := by
  rw [source?] at h
  split at h
  · cases h
  next hplain =>
    have hsource : ∀ data', m.source? data' =
        if m.method = 0 then some (checked m.crc (.ofContent (m.stored data')))
        else if m.method = 8 then some (checked m.crc (Inflate.source (m.stored data')))
        else none := by
      intro data'
      rw [source?, if_neg hplain]
    split at h
    next hmethod =>
      refine ⟨.inl hmethod, fun data' => ?_⟩
      rw [hsource, arriving, if_pos hmethod, if_pos hmethod]
    next hcompressed =>
      split at h
      next hmethod =>
        refine ⟨.inr hmethod, fun data' => ?_⟩
        rw [hsource, arriving, if_neg hcompressed, if_pos hmethod, if_neg hcompressed]
      · cases h

/-- A member that is stored as it is. -/
theorem Member.exists_source_stored {m : Member} {data content : ByteArray}
    (hplain : m.isEncrypted = false) (hmethod : m.method = 0) (hstored : m.stored data = content)
    (hcrc : (Digest.crc32 content).toNat = m.crc) :
    ∃ source, m.source? data = some source ∧ source.finalFault = none ∧
      source.content = content := by
  have hsteady := Source.steady_ofContent content
  refine ⟨checked m.crc (.ofContent content), ?_, ?_, ?_⟩
  · rw [source?, if_neg (by simp [hplain]), if_pos hmethod, hstored]
  · rw [finalFault_checked _ hsteady, Source.content_ofContent, if_pos hcrc,
      Source.finalFault_ofContent, Option.none_or]
  · rw [content_checked _ hsteady, Source.content_ofContent]

theorem reader_eq {data : ByteArray} {container : Container}
    (h : Container.parse? data = some container) :
    reader data = some (container.members.map Member.toContainerMember) := by
  rw [reader, h, Option.map_some]

/-- Directories are told by the slash, of either kind, that their names end with. -/
theorem getLast?_of_isDirectory {data : ByteArray} {members : List ContainerMember}
    (h : reader data = some members) {member : ContainerMember} (hmember : member ∈ members)
    (hdirectory : member.isDirectory = true) :
    member.name.toList.getLast? = some '/' ∨ member.name.toList.getLast? = some '\\' := by
  obtain ⟨container, -, rfl⟩ := Option.map_eq_some_iff.mp h
  obtain ⟨m, -, rfl⟩ := List.mem_map.mp hmember
  have hm : m.isDirectory = true := hdirectory
  rw [Member.isDirectory] at hm
  split at hm
  next c hlast =>
    rw [Bool.or_eq_true, decide_eq_true_eq, decide_eq_true_eq] at hm
    rcases hm with rfl | rfl
    · exact .inl hlast
    · exact .inr hlast
  next => cases hm

/-- A container with a directory and two files in it, the second by name before the first. -/
def packed : ByteArray :=
  ⟨#[80, 75, 3, 4, 20, 0, 0, 0, 0, 0, 0, 0, 33, 0, 0, 0, 0, 0, 0, 0, 0, 0, 0, 0, 0, 0,
    2, 0, 0, 0, 100, 47, 80, 75, 3, 4, 20, 0, 0, 0, 0, 0, 0, 0, 33, 0, 21, 38, 219, 251, 1, 0,
    0, 0, 1, 0, 0, 0, 1, 0, 0, 0, 98, 121, 80, 75, 3, 4, 20, 0, 0, 0, 0, 0, 0, 0, 33, 0,
    131, 22, 220, 140, 1, 0, 0, 0, 1, 0, 0, 0, 1, 0, 0, 0, 97, 120, 80, 75, 1, 2, 20, 0, 20, 0,
    0, 0, 0, 0, 0, 0, 33, 0, 0, 0, 0, 0, 0, 0, 0, 0, 0, 0, 0, 0, 2, 0, 0, 0, 0, 0,
    0, 0, 0, 0, 0, 0, 128, 1, 0, 0, 0, 0, 100, 47, 80, 75, 1, 2, 20, 0, 20, 0, 0, 0, 0, 0,
    0, 0, 33, 0, 21, 38, 219, 251, 1, 0, 0, 0, 1, 0, 0, 0, 1, 0, 0, 0, 0, 0, 0, 0, 0, 0,
    0, 0, 128, 1, 32, 0, 0, 0, 98, 80, 75, 1, 2, 20, 0, 20, 0, 0, 0, 0, 0, 0, 0, 33, 0, 131,
    22, 220, 140, 1, 0, 0, 0, 1, 0, 0, 0, 1, 0, 0, 0, 0, 0, 0, 0, 0, 0, 0, 0, 128, 1, 64,
    0, 0, 0, 97, 80, 75, 5, 6, 0, 0, 0, 0, 3, 0, 3, 0, 142, 0, 0, 0, 96, 0, 0, 0, 0, 0]⟩

def packedDirectory : Member :=
  ⟨"d/", false, 0, 0, 0, 32⟩

def packedY : Member :=
  ⟨"b", false, 0, 4225443349, 1, 63⟩

def packedX : Member :=
  ⟨"a", false, 0, 2363233923, 1, 95⟩

theorem parse?_packed :
    Container.parse? packed = some ⟨[packedDirectory, packedY, packedX]⟩ := by
  decide +kernel

theorem exists_source_packedDirectory : ∃ source, packedDirectory.source? packed = some source ∧
    source.finalFault = none ∧ source.content = .empty :=
  Member.exists_source_stored rfl rfl (by decide +kernel) (by decide +kernel)

theorem exists_source_packedY : ∃ source, packedY.source? packed = some source ∧
    source.finalFault = none ∧ source.content = ⟨#[121]⟩ :=
  Member.exists_source_stored rfl rfl (by decide +kernel) Digest.crc32_y

theorem exists_source_packedX : ∃ source, packedX.source? packed = some source ∧
    source.finalFault = none ∧ source.content = ⟨#[120]⟩ :=
  Member.exists_source_stored rfl rfl (by decide +kernel) Digest.crc32_x

end Zip

end ArchiveOverlay
