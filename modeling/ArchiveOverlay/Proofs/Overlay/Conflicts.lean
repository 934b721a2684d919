import ArchiveOverlay.Conflict
import ArchiveOverlay.Proofs.Overlay.Walk

namespace ArchiveOverlay

namespace Overlay

variable {o : Overlay} {path : Path} {r : Resolved} {n : Nat}

/-- How many archives have a file at a path. -/
def holderCount (o : Overlay) (path : Path) : Nat :=
  (o.archives.filter fun a => a.contains path).length

theorem holderCount_eq_length_holders (o : Overlay) (path : Path) :
    o.holderCount path = (o.holders path).length := by
  rw [holderCount, ← holders_map_fst, List.length_map]

theorem tally_keyed :
    Ordered.Keyed (fun a b : Path × Nat => Text.before a.1.text b.1.text)
      (fun a b => (a.1, a.2 + b.2)) (fun row => row.1.text) where
  before_iff := fun _ _ => Text.before_iff_lt
  key_merge := fun _ _ => rfl

/-- What is counted: every file of every archive, once. -/
def occurrences (o : Overlay) : List (Path × Nat) :=
  o.archives.flatMap fun a => a.entries.map fun e => (e.path, 1)

theorem map_fst_tally (o : Overlay) : o.tally.map Prod.fst = o.paths := by
  have hpaths : o.occurrences.map Prod.fst =
      o.archives.flatMap fun a => a.entries.map Entry.path := by
    simp only [occurrences, List.map_flatMap, List.map_map]
    rfl
  rw [paths, ← hpaths]
  refine Ordered.map_collect Prod.fst ?_ ?_ o.occurrences
  · exact fun _ _ => rfl
  · exact fun _ _ => rfl

theorem canonical_of_occurrence {row : Path × Nat} (h : row ∈ o.occurrences) :
    row.1.Canonical ∧ row.2 = 1 := by
  obtain ⟨a, -, hrow⟩ := List.mem_flatMap.mp h
  obtain ⟨e, he, rfl⟩ := List.mem_map.mp hrow
  exact ⟨a.canonical_of_mem he, rfl⟩

/-- A path occurs once in each archive that has a file there. -/
theorem length_occurrences (o : Overlay) (path : Path) :
    (o.occurrences.filter fun row => decide (row.1 = path)).length = o.holderCount path := by
  have harchive : ∀ a : Archive,
      ((a.entries.map fun e => (e.path, 1)).filter fun row : Path × Nat => decide (row.1 = path)) =
        ((a.find? path).map fun e => (e.path, 1)).toList := by
    intro a
    rw [List.filter_map]
    change ((a.entries.filter fun e => decide (e.path = path)).map fun e => (e.path, 1)) = _
    rw [a.filter_path]
    cases a.find? path <;> rfl
  rw [holderCount_eq_length_holders, occurrences, List.filter_flatMap, holders]
  simp only [harchive, ← List.filterMap_eq_flatMap_toList, List.length_filterMap_eq_countP,
    Option.isSome_map]

theorem count_of_mem_tally (h : (path, n) ∈ o.tally) : n = o.holderCount path := by
  have hpath : path ∈ o.paths := by
    rw [← map_fst_tally]
    exact List.mem_map_of_mem h
  have hcanonical := (mem_paths.mp hpath).canonical
  have hmerge := (Ordered.collect_ascending tally_keyed o.occurrences).mem_iff.mp h
  rw [Ordered.find?_collect tally_keyed] at hmerge
  have hones : ∀ row ∈ o.occurrences.filter (fun row => decide (row.1.text = path.text)),
      row.2 = 1 :=
    fun row hrow => (canonical_of_occurrence (List.mem_filter.mp hrow).1).2
  have hcount := Ordered.mergeAll_count Prod.snd (fun _ _ => rfl) hones hmerge
  -- Paths with the same text are the same path.
  have hsame : (o.occurrences.filter fun row => decide (row.1.text = path.text)) =
      o.occurrences.filter fun row => decide (row.1 = path) := by
    apply List.filter_congr
    intro row hrow
    rw [decide_eq_decide]
    refine ⟨?_, congrArg Path.text⟩
    exact Path.text_injective (canonical_of_occurrence hrow).1 hcanonical
  rw [hsame, length_occurrences] at hcount
  exact hcount

theorem tally_eq (o : Overlay) : o.tally = o.paths.map fun path => (path, o.holderCount path) := by
  rw [← map_fst_tally, List.map_map]
  conv_lhs => rw [← List.map_id o.tally]
  apply List.map_congr_left
  rintro ⟨path, n⟩ h
  rw [count_of_mem_tally h]
  rfl

/-- All archives with a file at a path but the winner are shadowed. -/
theorem length_shadowed (h : o.resolve? path = some r) :
    r.shadowed.length + 1 = o.holderCount path := by
  rw [holderCount_eq_length_holders]
  rw [resolve?] at h
  split at h
  · cases h
  next archive entry others hholders =>
    cases h
    rw [hholders, List.length_cons, List.length_map]

theorem isConflicted_iff (h : o.resolve? path = some r) :
    r.isConflicted = true ↔ 1 < o.holderCount path := by
  rw [← length_shadowed h, Resolved.isConflicted, Bool.not_eq_true', List.isEmpty_eq_false_iff,
    ← List.length_pos_iff]
  omega

theorem Holds.isBelow_root (h : o.Holds path) : path.isBelow .root = true := by
  rw [Path.isBelow_iff h.canonical Path.canonical_root]
  obtain ⟨a, -, e, he, rfl⟩ := h
  obtain ⟨-, -, hne⟩ := a.exists_name he
  obtain ⟨name, rest, hsegments⟩ := List.exists_cons_of_ne_nil hne
  exact ⟨Text.lowercase name, rest.map Text.lowercase,
    by simp [e.path_segments, hsegments, Path.root]⟩

theorem allBelow_root (o : Overlay) : o.allBelow .root = o.paths.filterMap o.resolve? := by
  rw [allBelow, List.filter_eq_self.mpr fun path hpath => (mem_paths.mp hpath).isBelow_root]

/-- Counting paths and resolving those that occur more than once gives what shadows something. -/
theorem conflicts_eq_filter (o : Overlay) :
    o.conflicts = (o.allBelow .root).filter Resolved.isConflicted := by
  rw [conflicts, tally_eq, List.filter_map, List.filterMap_map, allBelow_root,
    List.filter_filterMap, List.filterMap_filter]
  apply List.filterMap_congr
  intro path hpath
  obtain ⟨r, hr⟩ := exists_resolve?_iff.mpr (mem_paths.mp hpath)
  simp only [Function.comp_apply, hr, Option.filter_some, decide_eq_true_eq,
    isConflicted_iff hr, gt_iff_lt]

theorem walk_root (o : Overlay) : o.walk "" = .ok (o.allBelow .root) := by
  have hparse : Path.parse "" = .ok .root := rfl
  rw [walk_of_parse_ok hparse]
  rfl

theorem mem_conflicts : r ∈ o.conflicts ↔ o.resolve? r.path = some r ∧
    1 < o.holderCount r.path := by
  rw [conflicts_eq_filter, List.mem_filter, mem_allBelow Path.canonical_root]
  constructor
  · rintro ⟨⟨-, hresolve⟩, hconflicted⟩
    exact ⟨hresolve, (isConflicted_iff hresolve).mp hconflicted⟩
  · rintro ⟨hresolve, hcount⟩
    have hholds := holds_of_resolve? hresolve
    refine ⟨⟨?_, hresolve⟩, (isConflicted_iff hresolve).mpr hcount⟩
    exact (Path.isBelow_iff hholds.canonical Path.canonical_root).mp hholds.isBelow_root

theorem exists_conflict_iff : (∃ r ∈ o.conflicts, r.path = path) ↔ 1 < o.holderCount path := by
  constructor
  · rintro ⟨r, hr, rfl⟩
    exact (mem_conflicts.mp hr).2
  · intro hcount
    obtain ⟨a, ha⟩ := List.exists_mem_of_length_pos (Nat.lt_of_succ_lt hcount)
    obtain ⟨hmem, hcontains⟩ := List.mem_filter.mp ha
    obtain ⟨r, hr⟩ := exists_resolve?_iff.mpr ⟨a, hmem, Archive.contains_iff.mp hcontains⟩
    obtain rfl := resolve?_path hr
    exact ⟨r, mem_conflicts.mpr ⟨hr, hcount⟩, rfl⟩

end Overlay

theorem MountTable.holderCount_overlay (t : MountTable) (path : Path) :
    t.overlay.holderCount path = (t.mounts.filter fun m => m.archive.contains path).length := by
  rw [Overlay.holderCount, overlay, List.filter_map, List.length_map]
  rfl

theorem MountRun.shadowed_nodup {requests : List MountRequest} {path : Path} {r : Resolved}
    (h : (of requests).table.overlay.resolve? path = some r) : r.shadowed.Nodup := by
  obtain ⟨records, harchives, -, -, hids⟩ := overlay_archives requests
  have hnodup : ((of requests).table.overlay.archives.map Archive.id).Nodup := by
    rw [harchives, List.map_map]
    exact hids
  cases hfilter : (of requests).table.overlay.archives.filter fun a => a.contains path with
  | nil =>
      rw [Overlay.resolve?_eq_none hfilter] at h
      cases h
  | cons winner others =>
      obtain ⟨e, -, -, hresolve⟩ := Overlay.resolve?_eq_some hfilter
      rw [hresolve] at h
      cases h
      have hsublist := List.filter_sublist (p := fun a => a.contains path)
        (l := (of requests).table.overlay.archives)
      rw [hfilter] at hsublist
      exact (List.nodup_cons.mp (hnodup.sublist (hsublist.map Archive.id))).2

/-- After every run, the conflicts are the files of a walk from the root that shadow others. They
have the paths that more than one archive in use holds, ascending by bytes; each is what is seen at
its path, and shadows every archive that holds the path but one. -/
theorem conflicts_run (requests : List MountRequest) :
    let t := (MountRun.of requests).table
    let o := t.overlay
    let holders := fun path => t.mounts.filter fun m => m.archive.contains path
    ∃ found, o.walk "" = .ok found ∧
      o.conflicts = found.filter Resolved.isConflicted ∧
      o.conflicts.Pairwise (fun a b => Text.bytes a.path.text < Text.bytes b.path.text) ∧
      (∀ path, (∃ r ∈ o.conflicts, r.path = path) ↔ 2 ≤ (holders path).length) ∧
      ∀ r ∈ o.conflicts, o.resolve r.path.text = .ok r ∧ r.shadowed.Nodup ∧
        r.shadowed.length + 1 = (holders r.path).length := by
  intro t o holders
  have hfilter := o.conflicts_eq_filter
  refine ⟨o.allBelow .root, o.walk_root, hfilter, ?_, ?_, ?_⟩
  · rw [hfilter]
    exact ((o.allBelow_ascending .root).sublist List.filter_sublist).imp Text.bytes_lt_iff.mpr
  · intro path
    rw [Overlay.exists_conflict_iff, t.holderCount_overlay]
    rfl
  · intro r hr
    obtain ⟨hresolve, -⟩ := Overlay.mem_conflicts.mp hr
    have hcanonical := (Overlay.holds_of_resolve? hresolve).canonical
    refine ⟨(Overlay.resolve_text_iff hcanonical).mpr hresolve,
      MountRun.shadowed_nodup hresolve, ?_⟩
    rw [Overlay.length_shadowed hresolve, t.holderCount_overlay]

end ArchiveOverlay
