import ArchiveOverlay.Zip.Container
import Mathlib.Data.Option.Basic
import Mathlib.Order.MinMax

/-!
Which bytes of a container its directory is read from. Where these stay, the directory is read as
before, whatever becomes of the contents of the members.
-/

namespace ArchiveOverlay

namespace Bytes

variable {data data' : ByteArray} {bound : Nat}

/-- That two byte arrays have the same length and agree from a position on. -/
structure SameFrom (data' data : ByteArray) (bound : Nat) : Prop where
  size : data'.size = data.size
  byte : ∀ i, bound ≤ i → byteAt data' i = byteAt data i

theorem SameFrom.littleEndian (h : SameFrom data' data bound) {start : Nat}
    (hstart : bound ≤ start) (width : Nat) :
    littleEndian data' start width = littleEndian data start width := by
  induction width generalizing start with
  | zero => rfl
  | succ width ih =>
      rw [Bytes.littleEndian, Bytes.littleEndian, h.byte start hstart, ih (by omega)]

theorem SameFrom.matchesAt (h : SameFrom data' data bound) {start : Nat} (hstart : bound ≤ start)
    (bytes : List UInt8) : matchesAt data' start bytes = matchesAt data start bytes := by
  induction bytes generalizing start with
  | nil => rfl
  | cons byte bytes ih =>
      rw [Bytes.matchesAt, Bytes.matchesAt, h.size, h.byte start hstart, ih (by omega)]

theorem SameFrom.findFrom (h : SameFrom data' data bound) (bytes : List UInt8) {start : Nat}
    (hstart : bound ≤ start) (count : Nat) :
    findFrom data' bytes start count = findFrom data bytes start count := by
  induction count generalizing start with
  | zero => rfl
  | succ count ih =>
      rw [Bytes.findFrom, Bytes.findFrom, h.matchesAt hstart, ih (by omega)]

theorem SameFrom.extract (h : SameFrom data' data bound) {start : Nat} (hstart : bound ≤ start)
    (stop : Nat) : data'.extract start stop = data.extract start stop := by
  have hsize : (data'.extract start stop).size = (data.extract start stop).size := by
    rw [ByteArray.size_extract, ByteArray.size_extract, h.size]
  apply ByteArray.ext_getElem hsize
  intro i hi hi'
  rw [ByteArray.size_extract] at hi hi'
  have hbyte := h.byte (start + i) (by omega)
  rw [byteAt, byteAt, dif_pos (by omega), dif_pos (by omega)] at hbyte
  rw [ByteArray.getElem_extract, ByteArray.getElem_extract]
  exact hbyte

theorem le_of_findFrom {bytes : List UInt8} {start count found : Nat}
    (h : findFrom data bytes start count = some found) : start ≤ found := by
  induction count generalizing start with
  | zero => cases h
  | succ count ih =>
      rw [findFrom] at h
      split at h
      · exact (Option.some.inj h).le
      · have hle := ih h
        omega

end Bytes

namespace Zip

variable {data data' : ByteArray} {bound position : Nat} {layout : Layout}

/-- That what was a local record is read as one still, with the content at the same place. -/
def SameRecords (data' data : ByteArray) (layout : Layout) : Prop :=
  ∀ header start, contentStart? data layout header = some start →
    contentStart? data' layout header = some start

theorem member?_of_same (h : Bytes.SameFrom data' data bound)
    (hrecords : SameRecords data' data layout) (hposition : bound ≤ position)
    {m : Member} {next : Nat}
    (hm : member? data layout position = some (m, next)) :
    member? data' layout position = some (m, next) ∧ position ≤ next := by
  unfold member? at hm ⊢
  simp (disch := omega) only [h.littleEndian, h.matchesAt, h.size, h.extract, Option.bind_eq_bind,
    Option.bind_eq_some_iff] at hm ⊢
  obtain ⟨u, hsignature, v, hsize, start, hstart, hresult⟩ := hm
  refine ⟨⟨u, hsignature, v, hsize, start, hrecords _ _ hstart, hresult⟩, ?_⟩
  have hnext := (Prod.mk.inj (Option.some.inj hresult)).2
  omega

theorem members?_of_same (h : Bytes.SameFrom data' data bound)
    (hrecords : SameRecords data' data layout) {count : Nat} (hposition : bound ≤ position)
    {ms : List Member}
    (hms : members? data layout position count = some ms) :
    members? data' layout position count = some ms := by
  induction count generalizing position ms with
  | zero => exact hms
  | succ count ih =>
      rw [members?] at hms ⊢
      simp only [Option.bind_eq_bind, Option.bind_eq_some_iff] at hms ⊢
      obtain ⟨⟨m, next⟩, hm, rest, hrest, hresult⟩ := hms
      obtain ⟨hm', hnext⟩ := member?_of_same h hrecords hposition hm
      exact ⟨(m, next), hm', rest, ih (by omega) hrest, hresult⟩

/-- The layout is read from the end record, and from there where the directory is looked for. -/
theorem layout?_of_same (h : Bytes.SameFrom data' data bound) (hposition : bound ≤ position)
    (hoffset : bound ≤ Bytes.littleEndian data (position + 16) 4) :
    layout? data' position = layout? data position := by
  unfold layout?
  simp (disch := omega) only [h.littleEndian, h.size, h.findFrom]

theorem bound_le_directoryStart (hoffset : bound ≤ Bytes.littleEndian data (position + 16) 4)
    (hlayout : layout? data position = some layout) : bound ≤ layout.directoryStart := by
  unfold layout? at hlayout
  simp only [Option.bind_eq_bind, Option.bind_eq_some_iff] at hlayout
  obtain ⟨-, -, -, -, hresult⟩ := hlayout
  split at hresult
  · obtain rfl := Option.some.inj hresult
    dsimp only
    omega
  · obtain ⟨start, hstart, hresult⟩ := Option.bind_eq_some_iff.mp hresult
    obtain rfl := Option.some.inj hresult
    have hfound := Bytes.le_of_findFrom hstart
    dsimp only
    omega

theorem containerBefore?_of_last {container : Container} {limit : Nat}
    (hend : Bytes.matchesAt data position endSignature = true)
    (hcontainer : containerAt? data position = some container)
    (hlast : ∀ other, position < other → Bytes.matchesAt data other endSignature = false)
    (hlimit : position < limit) : containerBefore? data limit = some container := by
  induction limit with
  | zero => omega
  | succ limit ih =>
      rw [containerBefore?]
      rcases Nat.eq_or_lt_of_le (Nat.le_of_lt_succ hlimit) with rfl | hbelow
      · rw [if_pos hend, hcontainer]
      · rw [hlast limit hbelow]
        exact ih hbelow

/-- That two containers differ at most in what comes before the place where the directory is looked
for, and there not in the records of the members. The end record is the last thing that looks like
one. -/
structure Intact (data' data : ByteArray) (position : Nat) (layout : Layout) : Prop where
  same : Bytes.SameFrom data' data (min position (Bytes.littleEndian data (position + 16) 4))
  records : SameRecords data' data layout
  isEnd : Bytes.matchesAt data position endSignature = true
  last : ∀ other, position < other → Bytes.matchesAt data other endSignature = false
  layout : layout? data position = some layout
  good : (containerAt? data position).isSome

/-- Such containers have the same directory. -/
theorem Intact.parse?_eq (h : Intact data' data position layout) :
    Container.parse? data' = Container.parse? data := by
  obtain ⟨container, hcontainer⟩ := Option.isSome_iff_exists.mp h.good
  have hsame := h.same
  have hcontainer' : containerAt? data' position = some container := by
    have hlayout := h.layout
    rw [containerAt?] at hcontainer ⊢
    rw [layout?_of_same hsame (min_le_left _ _) (min_le_right _ _), hlayout, Option.bind_eq_bind,
      Option.bind_some, hsame.littleEndian (le_trans (min_le_left _ _) (Nat.le_add_right _ _))]
    rw [hlayout, Option.bind_eq_bind, Option.bind_some] at hcontainer
    obtain ⟨ms, hms, hresult⟩ := Option.bind_eq_some_iff.mp hcontainer
    have hstart := bound_le_directoryStart (min_le_right position _) hlayout
    exact Option.bind_eq_some_iff.mpr ⟨ms, members?_of_same hsame h.records hstart hms, hresult⟩
  have hposition : position < data.size := by
    have hend := h.isEnd
    simp only [endSignature, Bytes.matchesAt, Bool.and_eq_true, decide_eq_true_eq] at hend
    exact hend.1.1
  rw [Container.parse?, Container.parse?,
    containerBefore?_of_last h.isEnd hcontainer h.last hposition]
  apply containerBefore?_of_last _ hcontainer' _ (by rwa [hsame.size])
  · rw [hsame.matchesAt (min_le_left _ _), h.isEnd]
  · intro other hother
    rw [hsame.matchesAt (le_trans (min_le_left _ _) hother.le), h.last other hother]

end Zip

end ArchiveOverlay
