import ArchiveOverlay.Disk.Change
import ArchiveOverlay.Proofs.Disk.Following

namespace ArchiveOverlay

theorem utf8ByteSize_le_of_begins {s t : String} (h : s.toList <+: t.toList) :
    s.utf8ByteSize ≤ t.utf8ByteSize := by
  obtain ⟨rest, hrest⟩ := h
  have happend : s ++ String.ofList rest = t := by
    rw [← String.toList_inj, String.toList_append, String.toList_ofList, hrest]
  rw [← happend, String.utf8ByteSize_append]
  exact Nat.le_add_right _ _

namespace Disk

open HostPath (Still SameWay)

/-- A path that can be looked up. -/
structure Admissible (path : String) : Prop where
  plain : '\x00' ∉ path.toList
  ne_empty : path ≠ ""
  fits : path.utf8ByteSize < pathLimit

/-- Where a path starts. -/
def start (d : Disk) (path : String) : Location :=
  if HostPath.isAbsolute path then [] else d.workingDirectory

section

variable {d s : Disk} {path path' : String} {followLast : Bool} {place : Location} {node : Node}

theorem locate_eq (h : Admissible path) (d : Disk) (followLast : Bool) :
    d.locate path followLast = d.follow followLast maxLinks (d.start path) (pathPieces path) := by
  rw [locate, if_neg h.plain, if_neg h.ne_empty, if_neg (not_le.mpr h.fits)]
  rfl

theorem admissible_of_locate {spot : Spot} (h : d.locate path followLast = .ok spot) :
    Admissible path := by
  unfold locate at h
  split at h
  · cases h
  next hplain =>
    split at h
    · cases h
    next hempty =>
      split at h
      · cases h
      next hfits => exact ⟨hplain, hempty, not_le.mp hfits⟩

theorem find_eq_ok_iff :
    d.find path = .ok (place, node) ↔
      Admissible path ∧ Reaches d true maxLinks (d.start path) (pathPieces path) place node := by
  constructor
  · intro h
    unfold find at h
    split at h
    · cases h
    · cases h
    next location found hlocate =>
      cases h
      have hpath := admissible_of_locate hlocate
      rw [locate_eq hpath] at hlocate
      exact ⟨hpath, reaches_of_follow hlocate⟩
  · rintro ⟨hpath, hreaches⟩
    rw [find, locate_eq hpath, hreaches.follow_eq]

theorem locate_of_find (h : d.find path = .ok (place, node)) :
    d.locate path true = .ok ⟨place, some node⟩ := by
  obtain ⟨hpath, hreaches⟩ := find_eq_ok_iff.mp h
  rw [locate_eq hpath, hreaches.follow_eq]

theorem node?_of_locate (h : d.locate path followLast = .ok ⟨place, some node⟩) :
    d.node? place = some node := by
  rw [locate_eq (admissible_of_locate h)] at h
  exact (reaches_of_follow h).node?_eq

theorem node?_of_find (h : d.find path = .ok (place, node)) : d.node? place = some node :=
  (find_eq_ok_iff.mp h).2.node?_eq

theorem isDirectory_of_find (h : d.find path = .ok (place, .directory)) :
    d.isDirectory path = true := by
  rw [isDirectory, h]

theorem find_root (d : Disk) : d.find "/" = .ok ([], .directory) := by
  refine find_eq_ok_iff.mpr ⟨⟨by decide, by decide, by decide⟩, ?_⟩
  exact .still (.inl rfl) (.still (.inl rfl) (.here rfl))

theorem find_of_locate (h : d.locate path false = .ok ⟨place, some .directory⟩) :
    d.find path = .ok (place, .directory) := by
  have hpath := admissible_of_locate h
  rw [locate_eq hpath] at h
  exact find_eq_ok_iff.mpr ⟨hpath, (reaches_of_follow h).followed⟩

/-- What a path leads to on a disk, it leads to on every disk that has more. -/
theorem Extends.find (hs : s.Extends d) (h : d.find path = .ok (place, node)) :
    s.find path = .ok (place, node) := by
  obtain ⟨hpath, hreaches⟩ := find_eq_ok_iff.mp h
  have hstart : s.start path = d.start path := by rw [start, start, hs.workingDirectory]
  rw [find_eq_ok_iff, hstart]
  exact ⟨hpath, hreaches.extend hs⟩

theorem isAbsolute_of_begins (hne : path' ≠ "") (h : path'.toList <+: path.toList) :
    HostPath.isAbsolute path' = HostPath.isAbsolute path := by
  obtain ⟨rest, hrest⟩ := h
  obtain ⟨c, cs, hcs⟩ := List.exists_cons_of_ne_nil (mt String.toList_eq_nil_iff.mp hne)
  simp [HostPath.isAbsolute, ← hrest, hcs]

/-- The beginning of a path to a directory leads there too, if what is left out stands still. -/
theorem find_of_sameWay (h : d.find path = .ok (place, .directory)) (hne : path' ≠ "")
    (hbegins : path'.toList <+: path.toList)
    (hway : SameWay (pathPieces path) (pathPieces path')) :
    d.find path' = .ok (place, .directory) := by
  obtain ⟨hpath, hreaches⟩ := find_eq_ok_iff.mp h
  obtain ⟨front, stills, stills', hpieces, hpieces', hstills, hstills'⟩ := hway
  rw [hpieces] at hreaches
  have hstart : d.start path' = d.start path := by
    rw [start, start, isAbsolute_of_begins hne hbegins]
  rw [find_eq_ok_iff, hpieces', hstart]
  refine ⟨⟨?_, hne, ?_⟩, (hreaches.of_append_still hstills).append_still hstills'⟩
  · exact fun hmem => hpath.plain (hbegins.subset hmem)
  · exact (utf8ByteSize_le_of_begins hbegins).trans_lt hpath.fits

theorem sameWay_slashes (front : List Char) {slashes : List Char} (h : ∀ c ∈ slashes, c = '/') :
    SameWay ((HostPath.pieces (front ++ slashes)).map String.ofList)
      ((HostPath.pieces front).map String.ofList) := by
  induction slashes using List.reverseRecOn with
  | nil =>
      rw [List.append_nil]
      exact SameWay.refl _
  | append_singleton slashes c ih =>
      have hslash : c = '/' := h c (by simp)
      subst hslash
      rw [← List.append_assoc, HostPath.pieces_append, List.map_append]
      exact (ih fun c hc => h c (by simp [hc])).append_left (.inl rfl)

theorem exists_slashes (cs : List Char) :
    ∃ slashes, (∀ c ∈ slashes, c = '/') ∧
      cs = (cs.reverse.dropWhile fun c => decide (c = '/')).reverse ++ slashes := by
  refine ⟨(cs.reverse.takeWhile fun c => decide (c = '/')).reverse, ?_, ?_⟩
  · intro c hc
    have hall := List.all_takeWhile (p := fun c => decide (c = '/')) (l := cs.reverse)
    simpa using List.all_eq_true.mp hall c (List.mem_reverse.mp hc)
  · rw [← List.reverse_append, List.takeWhile_append_dropWhile, List.reverse_reverse]

theorem sameWay_withoutLastSlashes (path : String) :
    SameWay (pathPieces path) (pathPieces (withoutLastSlashes path)) ∧
      (withoutLastSlashes path).toList <+: path.toList := by
  rw [withoutLastSlashes]
  split
  next hnil =>
    rw [String.toList_eq_nil_iff.mp hnil]
    exact ⟨SameWay.refl _, List.prefix_refl _⟩
  next c rest hlist =>
    obtain ⟨slashes, hslashes, hrest⟩ := exists_slashes rest
    generalize (rest.reverse.dropWhile fun c => decide (c = '/')).reverse = kept at hrest ⊢
    rw [pathPieces, pathPieces, String.toList_ofList, hlist, hrest, ← List.cons_append]
    exact ⟨sameWay_slashes (c :: kept) hslashes, List.prefix_append _ _⟩

theorem withoutLastSlashes_ne_empty (h : path ≠ "") : withoutLastSlashes path ≠ "" := by
  rw [withoutLastSlashes]
  split
  next hnil => exact absurd (String.toList_eq_nil_iff.mp hnil) h
  next => simp

theorem withoutLastSlashes_eq (h : HostPath.EndsInName path) : withoutLastSlashes path = path := by
  rw [withoutLastSlashes]
  split
  next hnil => exact (String.toList_eq_nil_iff.mp hnil).symm
  next c rest hlist =>
    have hrest : rest.reverse.dropWhile (fun c => decide (c = '/')) = rest.reverse := by
      cases hback : rest.reverse with
      | nil => rfl
      | cons last more =>
          apply List.dropWhile_cons_of_neg
          have hend := h.last
          obtain rfl : rest = more.reverse ++ [last] := by simpa using congrArg List.reverse hback
          rw [hlist, ← List.cons_append, List.getLast?_concat] at hend
          simpa using hend
    rw [hrest, List.reverse_reverse, ← hlist, String.ofList_toList]

theorem endsInSlash_eq_false (h : HostPath.EndsInName path) : endsInSlash path = false := by
  simpa [endsInSlash] using h.last

/-- Slashes at the end of a path to a directory make no difference. -/
theorem find_withoutLastSlashes (h : d.find path = .ok (place, .directory)) :
    d.find (withoutLastSlashes path) = .ok (place, .directory) := by
  have hne := withoutLastSlashes_ne_empty (find_eq_ok_iff.mp h).1.ne_empty
  obtain ⟨hway, hbegins⟩ := sameWay_withoutLastSlashes path
  exact find_of_sameWay h hne hbegins hway

end

end Disk

end ArchiveOverlay
