import ArchiveOverlay.Proofs.Archive.Loading
import ArchiveOverlay.Proofs.Zip.Container

namespace ArchiveOverlay

namespace Resolved

variable {r : Resolved} {d : Disk} {source : Source}

theorem extractBytes_of_stream (h : r.archive.source d r.entry.handle = .ok source) {verify : Bool}
    {error : Error} (hstream : (r.stream verify source (.unlimited false) ()).1 = .error error) :
    r.extractBytes d verify false = .error error := by
  rw [extractBytes, extract, h, deliver]
  rcases hresult : r.stream verify source (.unlimited false) () with ⟨result, o⟩
  rw [hresult] at hstream
  obtain rfl : result = .error error := hstream
  rfl

theorem extractBytes_exceeding (h : r.archive.source d r.entry.handle = .ok source)
    (hsize : r.entry.size < source.content.size) (verify : Bool) :
    ∃ actual, r.extractBytes d verify false = .error (r.corrupt actual) := by
  obtain ⟨actual, -, -, hstream⟩ := stream_exceeding Sink.willing_unlimited hsize verify ()
  exact ⟨actual, extractBytes_of_stream h hstream⟩

theorem extractBytes_fault (h : r.archive.source d r.entry.handle = .ok source)
    (hsize : source.content.size ≤ r.entry.size) {fault : IoFault}
    (hfault : source.finalFault = some fault) (verify : Bool) :
    r.extractBytes d verify false = .error (r.readFault source.content.size fault) :=
  extractBytes_of_stream h (stream_fault Sink.willing_unlimited hfault hsize verify ())

theorem extractBytes_ended (h : r.archive.source d r.entry.handle = .ok source)
    (hsize : source.content.size ≤ r.entry.size) (hfault : source.finalFault = none)
    (verify : Bool) :
    r.extractBytes d verify false =
      (r.check verify source.content source.content.size).map fun _ => source.content := by
  rw [extractBytes, extract, h, deliver]
  rw [stream_ended hfault hsize]
  rcases r.check verify source.content source.content.size with e | _ <;> rfl

/-- Bytes that came to their end are what was recorded, or that is noticed. -/
theorem extractBytes_ended_cases (h : r.archive.source d r.entry.handle = .ok source)
    (hsize : source.content.size ≤ r.entry.size) (hfault : source.finalFault = none)
    (verify : Bool) :
    r.extractBytes d verify false = .ok source.content ∧ source.content.size = r.entry.size ∨
      ∃ error, r.extractBytes d verify false = .error error ∧ error.isIntegrityFailure = true := by
  rw [extractBytes_ended h hsize hfault, check]
  split
  · exact .inr ⟨_, rfl, rfl⟩
  next hlength =>
    dsimp only
    split
    · exact .inr ⟨_, rfl, rfl⟩
    · exact .inl ⟨rfl, not_not.mp hlength⟩

/-- What is shorter than recorded is not extracted. -/
theorem extractBytes_of_short {content : ByteArray}
    (h : r.archive.source d r.entry.handle = .ok (.ofContent content))
    (hshort : content.size < r.entry.size) (verify : Bool) (bytes : ByteArray) :
    r.extractBytes d verify false ≠ .ok bytes := by
  intro hbytes
  have hsize : (Source.ofContent content).content.size < r.entry.size := by
    rwa [Source.content_ofContent]
  rcases extractBytes_ended_cases h (Nat.le_of_lt hsize) (Source.finalFault_ofContent content)
    verify with ⟨-, hlength⟩ | ⟨error, hfailed, -⟩
  · exact absurd hlength (Nat.ne_of_lt hsize)
  · cases hfailed.symm.trans hbytes

end Resolved

/-- That an extraction returned content of this size and checksum, or reported damage. -/
def Faithful (result : Except Error ByteArray) (size crc : Nat) : Prop :=
  (∃ content, result = .ok content ∧ content.size = size ∧ (Digest.crc32 content).toNat = crc) ∨
    ∃ error, result = .error error ∧ error.isIntegrityFailure = true

theorem Faithful.ne_io {result : Except Error ByteArray} {size crc : Nat}
    (h : Faithful result size crc) (fault : IoFault) : result ≠ .error (.io fault) := by
  rintro rfl
  rcases h with ⟨content, hresult, -⟩ | ⟨error, hresult, hintegrity⟩
  · cases hresult
  · cases hresult
    cases hintegrity

theorem Resolved.readFault_isIntegrityFailure (r : Resolved) (written : Nat) {fault : IoFault}
    (h : fault = .invalidData ∨ fault = .unexpectedEnd) :
    (r.readFault written fault).isIntegrityFailure = true := by
  rcases h with rfl | rfl
  · rw [readFault]
    split <;> rfl
  · rfl

/-- All damage is reported as such but bits that break the rules. -/
theorem Resolved.extractBytes_checked {r : Resolved} {d : Disk} {s : Source} {crc : Nat}
    (h : r.archive.source d r.entry.handle = .ok (Zip.checked crc s)) (hs : s.Steady)
    (hfaults : ∀ fault, s.finalFault = some fault → fault = .unexpectedEnd ∨ fault = .invalidInput)
    (verify : Bool) :
    r.extractBytes d verify false = .error (.io .invalidInput) ∧
        s.finalFault = some .invalidInput ∧ s.content.size ≤ r.entry.size ∨
      Faithful (r.extractBytes d verify false) r.entry.size crc ∧
        ¬ (s.finalFault = some .invalidInput ∧ s.content.size ≤ r.entry.size) := by
  have hcontent := Zip.content_checked crc hs
  have hfinal := Zip.finalFault_checked crc hs
  rcases Nat.lt_or_ge r.entry.size s.content.size with hsize | hsize
  · obtain ⟨actual, hresult⟩ := extractBytes_exceeding h (by rwa [hcontent]) verify
    exact .inr ⟨.inr ⟨_, hresult, rfl⟩, fun hbroken => not_lt.mpr hbroken.2 hsize⟩
  · have hsize' : (Zip.checked crc s).content.size ≤ r.entry.size := by rwa [hcontent]
    cases hfault : s.finalFault with
    | some fault =>
        rw [hfault, Option.some_or] at hfinal
        have hresult := extractBytes_fault h hsize' hfinal verify
        rcases hfaults fault hfault with rfl | rfl
        · refine .inr ⟨.inr ⟨_, hresult, r.readFault_isIntegrityFailure _ (.inr rfl)⟩, ?_⟩
          rintro ⟨hother, -⟩
          cases hother
        · exact .inl ⟨hresult, rfl, hsize⟩
    | none =>
        rw [hfault, Option.none_or] at hfinal
        refine .inr ⟨?_, fun hbroken => by cases hbroken.1⟩
        split at hfinal
        next hcrc =>
          rcases extractBytes_ended_cases h hsize' hfinal verify with ⟨hresult, hlength⟩ | hdamage
          · rw [hcontent] at hresult hlength
            exact .inl ⟨_, hresult, hlength, hcrc⟩
          · exact .inr hdamage
        · exact .inr ⟨_, extractBytes_fault h hsize' hfinal verify,
            r.readFault_isIntegrityFailure _ (.inl rfl)⟩

/-- The member behind an entry of a container that was loaded. -/
theorem exists_member {d : Disk} {path : String} {a : Archive} (hload : loadZip d path = .ok a)
    {data : ByteArray} (hdata : d.seen path = .ok (some data)) {e : Entry} (he : e ∈ a.entries) :
    a.backing = .zip Zip.reader path ∧ ∃ container m source,
      Zip.Container.parse? data = some container ∧ container.members[e.handle]? = some m ∧
      m.source? data = some source := by
  have horigin : (ArchiveOrigin.zip Zip.reader path).load d = .ok a := hload
  obtain ⟨hbacking, -⟩ := ArchiveOrigin.opened_of_loadContainer hload
  obtain ⟨raws, henumerates⟩ := ArchiveOrigin.exists_enumerates _ horigin
  obtain ⟨content, hrecovers⟩ := henumerates.exists_recovers he
  obtain ⟨source, hsource, -, -⟩ := hrecovers.source
  refine ⟨hbacking, ?_⟩
  rw [a.source_eq, hbacking, Backing.sourceSeen, hdata] at hsource
  dsimp only at hsource
  rw [memberSource] at hsource
  split at hsource
  · cases hsource
  next members hmembers =>
    obtain ⟨container, hparse, rfl⟩ := Option.map_eq_some_iff.mp hmembers
    split at hsource
    · cases hsource
    next member hmember =>
      rw [List.getElem?_map] at hmember
      obtain ⟨m, hm, rfl⟩ := Option.map_eq_some_iff.mp hmember
      split at hsource
      · cases hsource
      next found hfound => exact ⟨container, m, found, hparse, hm, hfound⟩

/-- Extracting an entry after the bytes of its container have changed, where the directory is still
read as before. The content that is returned has the recorded size and the checksum that the
container gives, and damage is reported as such, with one exception: compressed bytes that break
the rules of the code are an error of reading, unless too many bytes have come before. -/
theorem damaged_entry_outcome {d : Disk} {path : String} {a : Archive}
    (hload : loadZip d path = .ok a) {data data' : ByteArray}
    (hdata : d.seen path = .ok (some data))
    (hsame : Zip.Container.parse? data' = Zip.Container.parse? data)
    {e : Entry} (he : e ∈ a.entries) :
    ∃ container m, Zip.Container.parse? data = some container ∧
      container.members[e.handle]? = some m ∧ (m.method = 0 ∨ m.method = 8) ∧
      ∀ d' : Disk, d'.seen path = .ok (some data') →
      ∀ r : Resolved, r.archive = a → r.entry = e → ∀ verify : Bool,
        let result := r.extractBytes d' verify false
        let arriving := Inflate.source (m.stored data')
        (result = .error (.io .invalidInput) ↔
          m.method = 8 ∧ arriving.finalFault = some .invalidInput ∧
            arriving.content.size ≤ e.size) ∧
        ((∃ content, result = .ok content ∧ content.size = e.size ∧
            (Digest.crc32 content).toNat = m.crc) ∨
          (∃ error, result = .error error ∧ error.isIntegrityFailure = true) ∨
          result = .error (.io .invalidInput) ∧
            ∃ bytes, (Inflate.expand (m.stored data')).ending = .broken (.invalid bytes)) := by
  obtain ⟨hbacking, container, m, source, hparse, hm, hread⟩ := exists_member hload hdata he
  obtain ⟨hmethod, hsource⟩ := Zip.Member.source?_eq hread
  refine ⟨container, m, hparse, hm, hmethod, ?_⟩
  rintro d' hdata' r rfl rfl verify
  have hsteady := m.steady_arriving data'
  have hnow : r.archive.source d' r.entry.handle = .ok (Zip.checked m.crc (m.arriving data')) := by
    have hmember : (container.members.map Zip.Member.toContainerMember)[r.entry.handle]? =
        some m.toContainerMember := by rw [List.getElem?_map, hm, Option.map_some]
    rw [Archive.source_eq, hbacking, Backing.sourceSeen, hdata']
    dsimp only
    have hread : m.toContainerMember.source? data' = some (Zip.checked m.crc (m.arriving data')) :=
      hsource data'
    rw [memberSource_eq (Zip.reader_eq (hsame.trans hparse)) hmember, hread]
  have hfaults : ∀ fault, (m.arriving data').finalFault = some fault →
      fault = .unexpectedEnd ∨ fault = .invalidInput := by
    intro fault hfault
    obtain ⟨-, hinflate⟩ := Zip.Member.finalFault_arriving hfault
    rcases Inflate.finalFault_source hinflate with hend | ⟨hinvalid, -⟩
    · exact .inl hend
    · exact .inr hinvalid
  have harriving : m.method = 8 → m.arriving data' = Inflate.source (m.stored data') := by
    intro hcompressed
    rw [Zip.Member.arriving, if_neg (by omega)]
  rcases Resolved.extractBytes_checked hnow hsteady hfaults verify with
    ⟨hresult, hfault, hsize⟩ | ⟨hfaithful, hwhole⟩
  · obtain ⟨hne, hinflate⟩ := Zip.Member.finalFault_arriving hfault
    have hcompressed : m.method = 8 := hmethod.resolve_left hne
    rw [harriving hcompressed] at hsize
    refine ⟨iff_of_true hresult ⟨hcompressed, hinflate, hsize⟩, .inr (.inr ⟨hresult, ?_⟩)⟩
    rcases Inflate.finalFault_source hinflate with hend | ⟨-, hbroken⟩
    · cases hend
    · exact hbroken
  · constructor
    · refine iff_of_false (hfaithful.ne_io _) ?_
      rintro ⟨hcompressed, hinflate, hsize⟩
      rw [← harriving hcompressed] at hinflate hsize
      exact hwhole ⟨hinflate, hsize⟩
    · rcases hfaithful with hcontent | hdamage
      · exact .inl hcontent
      · exact .inr (.inl hdamage)

namespace Zip

/-- A container with one compressed member of one byte, by the first of its compressed bytes. -/
def onlyMember (first : UInt8) : ByteArray :=
  ⟨#[80, 75, 3, 4, 20, 0, 0, 0, 8, 0, 0, 0, 33, 0, 131, 22, 220, 140, 6, 0, 0, 0, 1, 0, 0, 0,
    1, 0, 0, 0, 97, first, 1, 0, 254, 255, 120, 80, 75, 1, 2, 20, 0, 20, 0, 0, 0, 8, 0, 0, 0, 33,
    0, 131, 22, 220, 140, 6, 0, 0, 0, 1, 0, 0, 0, 1, 0, 0, 0, 0, 0, 0, 0, 0, 0, 0, 0, 0,
    0, 0, 0, 0, 0, 97, 80, 75, 5, 6, 0, 0, 0, 0, 1, 0, 1, 0, 47, 0, 0, 0, 37, 0, 0, 0,
    0, 0]⟩

theorem intact_onlyMember : Intact (onlyMember 7) (onlyMember 1) 84 ⟨37, 0⟩ where
  same := by
    have hoffset : min 84 (Bytes.littleEndian (onlyMember 1) (84 + 16) 4) = 37 := by decide +kernel
    rw [hoffset]
    refine ⟨rfl, fun i hi => ?_⟩
    have hsize : ∀ first i, 106 ≤ i → ¬ i < (onlyMember first).size := fun first i => not_lt.mpr
    rcases Nat.lt_or_ge i 106 with hin | hout
    · have hbytes : ∀ i < 106, 37 ≤ i →
          Bytes.byteAt (onlyMember 7) i = Bytes.byteAt (onlyMember 1) i := by decide +kernel
      exact hbytes i hin hi
    · rw [Bytes.byteAt, Bytes.byteAt, dif_neg (hsize 7 i hout), dif_neg (hsize 1 i hout)]
  records := by
    intro header start hstart
    have hheaders : ∀ header < 37, contentStart? (onlyMember 7) ⟨37, 0⟩ header =
        contentStart? (onlyMember 1) ⟨37, 0⟩ header := by decide +kernel
    have hbefore : header < 37 := by
      rw [contentStart?] at hstart
      split at hstart
      next hheader => exact hheader.1
      · cases hstart
    rw [hheaders header hbefore, hstart]
  isEnd := by decide +kernel
  last := by
    intro other hother
    rcases Nat.lt_or_ge other 106 with hin | hout
    · have hnone : ∀ other < 106, 84 < other →
          Bytes.matchesAt (onlyMember 1) other endSignature = false := by decide +kernel
      exact hnone other hin hother
    · have hsize : ¬ other < (onlyMember 1).size := not_lt.mpr hout
      rw [endSignature, Bytes.matchesAt, decide_eq_false hsize, Bool.false_and, Bool.false_and]
  layout := by rfl
  good := by decide +kernel

def onlyRecord : Member :=
  ⟨"a", false, 8, 2363233923, 6, 31⟩

theorem parse?_onlyMember : Container.parse? (onlyMember 1) = some ⟨[onlyRecord]⟩ := by
  decide +kernel

theorem source?_onlyMember (first : UInt8) : onlyRecord.source? (onlyMember first) =
    some (checked onlyRecord.crc (Inflate.source (onlyRecord.stored (onlyMember first)))) := by
  rw [Member.source?, if_neg (by decide), if_neg (by decide), if_pos (by decide)]

theorem exists_source_onlyMember : ∃ source, onlyRecord.source? (onlyMember 1) = some source ∧
    source.finalFault = none ∧ source.content = ⟨#[120]⟩ := by
  let s := Inflate.source (onlyRecord.stored (onlyMember 1))
  have hs : s.Steady := Inflate.steady_source _
  have hx : s.content = ⟨#[120]⟩ := by decide +kernel
  have hend : s.finalFault = none := by decide +kernel
  refine ⟨_, source?_onlyMember 1, ?_, ?_⟩
  · rw [finalFault_checked _ hs, hend, hx, if_pos (by exact Digest.crc32_x), Option.none_or]
  · rw [content_checked _ hs, hx]

end Zip

theorem load_onlyMember : ∃ a r, loadZip (.boxed (Zip.onlyMember 1)) "a.zip" = .ok a ∧
    (⟨[a]⟩ : Overlay).resolve "a" = .ok r ∧ r.archive = a ∧ r.entry ∈ a.entries ∧
    r.entry.handle = 0 ∧ r.entry.size = 1 := by
  obtain ⟨source, hread, hfault, hx⟩ := Zip.exists_source_onlyMember
  have hload := loadContainer_eq (Disk.find_boxed (Zip.onlyMember 1))
    (Zip.reader_eq Zip.parse?_onlyMember) (by
      simp only [List.map_cons, List.map_nil, List.forall_mem_cons]
      exact ⟨⟨source, hread, fun _ => hfault⟩, by simp⟩)
  have hfile := ContainerMember.file?_of_source
    (show Zip.onlyRecord.toContainerMember.isDirectory = false from rfl)
    (show DisplayPath.parse "a" = .ok ⟨["a"]⟩ from rfl) (by decide) hread
  have hraws : [(Zip.onlyRecord.toContainerMember, 0)].filterMap
      (ContainerMember.raw? (Zip.onlyMember 1)) = [⟨"a", 1, Digest.xxh3 ⟨#[120]⟩, 0⟩] := by
    rw [List.filterMap_cons_some (by rw [ContainerMember.raw?, hfile, hx]; rfl)]
    rfl
  rw [loadZip, hload, List.map_singleton]
  change ∃ a r, Archive.build _ _ ([(Zip.onlyRecord.toContainerMember, 0)].filterMap
    (ContainerMember.raw? (Zip.onlyMember 1))) = _ ∧ _
  rw [hraws]
  exact ⟨_, _, rfl, rfl, rfl, List.mem_singleton_self _, rfl, rfl⟩

/-- Two bits turned in the first compressed byte ask for a kind of block that there is none of. The
damage is an error of reading, though the directory is read as before. -/
theorem damaged_entry_unreadable : ∃ a r, loadZip (.boxed (Zip.onlyMember 1)) "a.zip" = .ok a ∧
    (⟨[a]⟩ : Overlay).resolve "a" = .ok r ∧
    Zip.Container.parse? (Zip.onlyMember 7) = Zip.Container.parse? (Zip.onlyMember 1) ∧
    ∀ verify, r.extractBytes (.boxed (Zip.onlyMember 7)) verify false =
      .error (.io .invalidInput) := by
  obtain ⟨a, r, hload, hresolve, harchive, hentry, hhandle, hsize⟩ := load_onlyMember
  have hsame := Zip.intact_onlyMember.parse?_eq
  obtain ⟨container, m, hparse, hm, -, houtcome⟩ :=
    damaged_entry_outcome hload (Disk.seen_boxed _) hsame hentry
  rw [Zip.parse?_onlyMember] at hparse
  cases hparse
  rw [hhandle] at hm
  cases hm
  refine ⟨a, r, hload, hresolve, hsame, fun verify => ?_⟩
  apply (houtcome _ (Disk.seen_boxed _) r harchive rfl verify).1.mpr
  refine ⟨rfl, ?_, ?_⟩
  · decide +kernel
  · rw [hsize]
    decide +kernel

end ArchiveOverlay
