import ArchiveOverlay.Overlay
import ArchiveOverlay.Proofs.Archive.Entries
import ArchiveOverlay.Proofs.Mount.History

namespace ArchiveOverlay

namespace Overlay

variable {o : Overlay} {path : Path}

theorem holders_map_fst (o : Overlay) (path : Path) :
    (o.holders path).map Prod.fst = o.archives.filter fun a => a.contains path := by
  rw [holders, List.map_filterMap, ← List.filterMap_eq_filter]
  apply List.filterMap_congr
  intro a _
  cases hfind : a.find? path with
  | none => simp [Option.guard, Archive.contains, hfind]
  | some e => simp [Option.guard, Archive.contains, hfind]

theorem mem_holders {a : Archive} {e : Entry} (h : (a, e) ∈ o.holders path) :
    a.find? path = some e := by
  obtain ⟨b, -, hb⟩ := List.mem_filterMap.mp h
  obtain ⟨f, hf, heq⟩ := Option.map_eq_some_iff.mp hb
  cases heq
  exact hf

theorem resolve?_eq_none (h : (o.archives.filter fun a => a.contains path) = []) :
    o.resolve? path = none := by
  rw [← holders_map_fst, List.map_eq_nil_iff] at h
  rw [resolve?, h]

/-- The first archive that holds the path wins, and the others that hold it are shadowed. -/
theorem resolve?_eq_some {winner : Archive} {others : List Archive}
    (h : (o.archives.filter fun a => a.contains path) = winner :: others) :
    ∃ e ∈ winner.entries, e.path = path ∧
      o.resolve? path = some ⟨path, winner, e, others.map Archive.id⟩ := by
  rw [← holders_map_fst] at h
  obtain ⟨⟨a, e⟩, rest, hholders, rfl, rfl⟩ := List.map_eq_cons_iff.mp h
  have hfind : a.find? path = some e := mem_holders (by rw [hholders]; simp)
  obtain ⟨hmem, hpath⟩ := Archive.find?_some hfind
  refine ⟨e, hmem, hpath, ?_⟩
  rw [resolve?, hholders, List.map_map]
  rfl

theorem resolve_of_parse_error {raw : String} {fault : PathFault}
    (h : Path.parse raw = .error fault) : o.resolve raw = .error (.invalidPath raw fault) := by
  simp [resolve, parsePath, h, Except.mapError, bind, Except.bind]

theorem resolve_of_parse_ok {raw : String} (h : Path.parse raw = .ok path) :
    o.resolve raw = match o.resolve? path with
      | some r => .ok r
      | none => .error (.notFound path.display) := by
  simp only [resolve, parsePath, h, Except.mapError, bind, Except.bind]
  cases o.resolve? path <;> rfl

theorem exists_resolve?_iff :
    (∃ r, o.resolve? path = some r) ↔ ∃ a ∈ o.archives, a.Holds path := by
  cases hfilter : o.archives.filter fun a => a.contains path with
  | nil =>
      rw [resolve?_eq_none hfilter]
      constructor
      · rintro ⟨r, hr⟩
        cases hr
      · rintro ⟨a, ha, hholds⟩
        exact absurd (Archive.contains_iff.mpr hholds) (List.filter_eq_nil_iff.mp hfilter a ha)
  | cons winner others =>
      obtain ⟨e, he, hpath, hresolve⟩ := resolve?_eq_some hfilter
      have hmem : winner ∈ o.archives.filter fun a => a.contains path := by simp [hfilter]
      constructor
      · intro _
        exact ⟨winner, (List.mem_filter.mp hmem).1, e, he, hpath⟩
      · intro _
        exact ⟨_, hresolve⟩

theorem exists_resolve_iff {raw : String} (h : Path.parse raw = .ok path) :
    (∃ r, o.resolve raw = .ok r) ↔ ∃ a ∈ o.archives, a.Holds path := by
  rw [resolve_of_parse_ok h, ← exists_resolve?_iff]
  cases o.resolve? path <;> simp

theorem holds_iff_resolve (o : Overlay) (raw : String) :
    o.holds raw = true ↔ ∃ r, o.resolve raw = .ok r := by
  cases hparse : Path.parse raw with
  | error fault =>
      rw [resolve_of_parse_error hparse]
      simp [holds, hparse]
  | ok path =>
      rw [exists_resolve_iff hparse]
      simp [holds, hparse, Archive.contains_iff]

end Overlay

namespace MountRun

/-- The archives of the overlay are those of the mounts in use, the highest ranked first. -/
theorem overlay_archives (requests : List MountRequest) :
    ∃ records : List RecordedMount,
      (of requests).table.overlay.archives = records.map RecordedMount.archive ∧
      (∀ m, m ∈ records ↔ InUse (of requests).history m) ∧
      records.Pairwise RecordedMount.Outranks ∧
      (records.map fun m => m.archive.id).Nodup := by
  obtain ⟨records, hmounts, hmem, hranked⟩ := exists_records requests
  refine ⟨records, ?_, hmem, hranked, ?_⟩
  · change (of requests).table.mounts.map Mount.archive = _
    rw [← hmounts, List.map_map]
    rfl
  · have hapart := (sound_of requests).names_apart
    rw [← hmounts, List.pairwise_map] at hapart
    rw [List.Nodup, List.pairwise_map]
    refine hapart.imp ?_
    intro a b hab heq
    change ¬ a.archive.id.named b.archive.id.name = true at hab
    rw [heq] at hab
    exact hab (ArchiveId.named_self _)

end MountRun

/-- After every run, what is seen at a path is the file of the highest ranked archive in use that
holds it; the others in use that hold it are shadowed, each once and in the order of their
ranks. -/
theorem resolve_run (requests : List MountRequest) (raw : String) :
    let o := (MountRun.of requests).table.overlay
    let history := (MountRun.of requests).history
    (match Path.parse raw with
      | .error fault => o.resolve raw = .error (.invalidPath raw fault)
      | .ok path =>
        ∃ holders : List RecordedMount,
          (∀ m, m ∈ holders ↔ InUse history m ∧ m.archive.Holds path) ∧
          holders.Pairwise RecordedMount.Outranks ∧
          (holders.map fun m => m.archive.id).Nodup ∧
          match holders with
          | [] => o.resolve raw = .error (.notFound path.display)
          | winner :: others =>
            ∃ e, (∀ f, f ∈ winner.archive.entries ∧ f.path = path ↔ f = e) ∧
              o.resolve raw =
                .ok ⟨path, winner.archive, e, others.map fun m => m.archive.id⟩) ∧
    (o.holds raw = true ↔ ∃ r, o.resolve raw = .ok r) := by
  intro o history
  refine ⟨?_, Overlay.holds_iff_resolve o raw⟩
  cases hparse : Path.parse raw with
  | error fault => exact Overlay.resolve_of_parse_error hparse
  | ok path =>
      obtain ⟨records, harchives, hmem, hranked, hids⟩ := MountRun.overlay_archives requests
      have hfilter : (o.archives.filter fun a => a.contains path) =
          (records.filter fun m => m.archive.contains path).map RecordedMount.archive := by
        rw [harchives, List.filter_map]
        rfl
      refine ⟨records.filter fun m => m.archive.contains path, ?_, ?_, ?_, ?_⟩
      · intro m
        rw [List.mem_filter, hmem, Archive.contains_iff]
      · exact hranked.sublist List.filter_sublist
      · exact hids.sublist (List.filter_sublist.map _)
      · rw [Overlay.resolve_of_parse_ok hparse]
        cases hholders : records.filter fun m => m.archive.contains path with
        | nil =>
            rw [hholders] at hfilter
            rw [Overlay.resolve?_eq_none hfilter]
        | cons winner others =>
            rw [hholders] at hfilter
            obtain ⟨e, he, hpath, hresolve⟩ := Overlay.resolve?_eq_some hfilter
            refine ⟨e, ?_, ?_⟩
            · intro f
              constructor
              · rintro ⟨hf, hfpath⟩
                exact winner.archive.eq_of_path_eq hf he (hfpath.trans hpath.symm)
              · rintro rfl
                exact ⟨he, hpath⟩
            · rw [hresolve, List.map_map]
              rfl

end ArchiveOverlay
