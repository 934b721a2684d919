import ArchiveOverlay.Proofs.Overlay.Conflicts
import Mathlib.Algebra.GroupWithZero.Nat
import Mathlib.Data.Prod.Lex

namespace ArchiveOverlay

namespace Ordered

variable {α : Type} {before : α → α → Bool} {merge : α → α → α}

/-- Where a merge adds up a number, the sum over all rows stays the same. -/
theorem sum_upsert (field : α → Nat) (hfield : ∀ a b, field (merge a b) = field a + field b)
    (x : α) (rows : List α) :
    ((upsert before merge x rows).map field).sum = field x + (rows.map field).sum := by
  induction rows with
  | nil => rfl
  | cons y rows ih =>
      rw [upsert]
      split
      · rfl
      · split
        · rw [List.map_cons, List.sum_cons, ih, List.map_cons, List.sum_cons]
          omega
        · rw [List.map_cons, List.sum_cons, hfield, List.map_cons, List.sum_cons]
          omega

theorem sum_collect (field : α → Nat) (hfield : ∀ a b, field (merge a b) = field a + field b)
    (rows : List α) : ((collect before merge rows).map field).sum = (rows.map field).sum := by
  induction rows using List.reverseRecOn with
  | nil => rfl
  | append_singleton rows x ih =>
      rw [collect_concat, sum_upsert field hfield, ih, List.map_append, List.sum_append,
        List.map_singleton, List.sum_singleton, Nat.add_comm]

end Ordered

namespace ConflictCount

/-- The two archives, by which rows are ordered. -/
def key (row : ConflictCount) : String ×ₗ String :=
  toLex (row.winner.name, row.shadowed.name)

theorem key_eq_iff {a b : ConflictCount} :
    a.key = b.key ↔ a.winner = b.winner ∧ a.shadowed = b.shadowed := by
  rcases a with ⟨⟨winner⟩, ⟨shadowed⟩, n⟩
  rcases b with ⟨⟨winner'⟩, ⟨shadowed'⟩, n'⟩
  simp [key]

theorem key_lt_iff {a b : ConflictCount} :
    a.key < b.key ↔ a.winner.name < b.winner.name ∨
      a.winner = b.winner ∧ a.shadowed.name < b.shadowed.name := by
  rcases a with ⟨⟨winner⟩, ⟨shadowed⟩, n⟩
  rcases b with ⟨⟨winner'⟩, ⟨shadowed'⟩, n'⟩
  simp [key, Prod.Lex.toLex_lt_toLex]

theorem keyed : Ordered.Keyed before merge key where
  before_iff := by
    intro a b
    rw [key_lt_iff, before]
    split
    next hwinner => simp [hwinner, Text.before_iff_lt]
    next hwinner => simp [hwinner, Text.before_iff_lt]
  key_merge := fun _ _ => rfl

end ConflictCount

/-- What is counted: every archive that a conflict shadows, once. -/
def shadowings (conflicts : List Resolved) : List ConflictCount :=
  conflicts.flatMap fun r => r.shadowed.map fun id => ⟨r.winner, id, 1⟩

theorem summarize_eq (conflicts : List Resolved) :
    summarize conflicts =
      Ordered.collect ConflictCount.before ConflictCount.merge (shadowings conflicts) :=
  rfl

/-- How often one archive shadows another. -/
def timesShadowed (conflicts : List Resolved) (winner shadowed : ArchiveId) : Nat :=
  (shadowings conflicts).countP fun s => decide (s.winner = winner ∧ s.shadowed = shadowed)

theorem length_filter_key (conflicts : List Resolved) (row : ConflictCount) :
    ((shadowings conflicts).filter fun s => decide (s.key = row.key)).length =
      timesShadowed conflicts row.winner row.shadowed := by
  rw [timesShadowed, List.countP_eq_length_filter]
  congr 1
  apply List.filter_congr
  intro s _
  rw [decide_eq_decide, ConflictCount.key_eq_iff]

/-- All that is counted for two archives, taken together. -/
theorem mergeAll_shadowings {conflicts : List Resolved} {row merged : ConflictCount}
    (h : Ordered.mergeAll ConflictCount.merge
      ((shadowings conflicts).filter fun s => decide (s.key = row.key)) = some merged) :
    merged = ⟨row.winner, row.shadowed, timesShadowed conflicts row.winner row.shadowed⟩ := by
  have hones : ∀ s ∈ (shadowings conflicts).filter (fun s => decide (s.key = row.key)),
      s.paths = 1 := by
    intro s hs
    obtain ⟨r, -, hr⟩ := List.mem_flatMap.mp (List.mem_filter.mp hs).1
    obtain ⟨id, -, rfl⟩ := List.mem_map.mp hr
    rfl
  have hpaths := Ordered.mergeAll_count ConflictCount.paths (fun _ _ => rfl) hones h
  rw [length_filter_key] at hpaths
  have hkey : merged.key = row.key := by
    have hfirst := Ordered.mergeAll_first ConflictCount.key ConflictCount.keyed.key_merge
      ((shadowings conflicts).filter fun s => decide (s.key = row.key))
    rw [h, Option.map_some] at hfirst
    obtain ⟨first, hhead, hsame⟩ := Option.map_eq_some_iff.mp hfirst.symm
    rw [← hsame]
    exact of_decide_eq_true (List.mem_filter.mp (List.mem_of_head? hhead)).2
  obtain ⟨hwinner, hshadowed⟩ := ConflictCount.key_eq_iff.mp hkey
  rw [← hpaths, ← hwinner, ← hshadowed]

/-- A row counts how often its two archives meet. -/
theorem mem_summarize {conflicts : List Resolved} {row : ConflictCount} :
    row ∈ summarize conflicts ↔
      0 < row.paths ∧ row.paths = timesShadowed conflicts row.winner row.shadowed := by
  rw [summarize_eq, (Ordered.collect_ascending ConflictCount.keyed _).mem_iff,
    Ordered.find?_collect ConflictCount.keyed]
  constructor
  · intro hmerge
    have hpaths := congrArg ConflictCount.paths (mergeAll_shadowings hmerge)
    refine ⟨?_, hpaths⟩
    rw [hpaths, ← length_filter_key, List.length_pos_iff]
    intro hnone
    rw [hnone] at hmerge
    cases hmerge
  · rintro ⟨hpos, hpaths⟩
    rw [hpaths, ← length_filter_key, List.length_pos_iff] at hpos
    obtain ⟨merged, hmerged⟩ :=
      Option.ne_none_iff_exists'.mp (Ordered.mergeAll_eq_none_iff.not.mpr hpos)
    rw [hmerged, mergeAll_shadowings hmerged, ← hpaths]

/-- Archives that a conflict names once meet once in it. -/
theorem timesShadowed_eq {conflicts : List Resolved} (h : ∀ r ∈ conflicts, r.shadowed.Nodup)
    (winner shadowed : ArchiveId) :
    timesShadowed conflicts winner shadowed =
      (conflicts.filter fun r => decide (r.winner = winner ∧ shadowed ∈ r.shadowed)).length := by
  rw [← List.countP_eq_length_filter]
  induction conflicts with
  | nil => rfl
  | cons r conflicts ih =>
      have hmeet : ((fun s : ConflictCount => decide (s.winner = winner ∧ s.shadowed = shadowed)) ∘
          fun id => (⟨r.winner, id, 1⟩ : ConflictCount)) =
          fun id => decide (r.winner = winner) && (id == shadowed) := by
        funext id
        simp [Bool.decide_and, beq_eq_decide]
      have hr : (r.shadowed.map fun id => (⟨r.winner, id, 1⟩ : ConflictCount)).countP
          (fun s => decide (s.winner = winner ∧ s.shadowed = shadowed)) =
            if r.winner = winner ∧ shadowed ∈ r.shadowed then 1 else 0 := by
        rw [List.countP_map, hmeet]
        by_cases hwinner : r.winner = winner
        · have hcount := (h r (by simp)).count (a := shadowed)
          rw [List.count] at hcount
          simp [hwinner, hcount]
        · simp [hwinner]
      rw [timesShadowed] at ih ⊢
      rw [shadowings, List.flatMap_cons, List.countP_append, hr, ← shadowings,
        ih fun other hother => h other (by simp [hother]), List.countP_cons, Nat.add_comm]
      simp

theorem Overlay.conflicts_nodup (o : Overlay) : (o.conflicts.map Resolved.path).Nodup := by
  have hascending := (o.allBelow_ascending .root).sublist
    (List.filter_sublist (p := Resolved.isConflicted))
  rw [← conflicts_eq_filter] at hascending
  rw [List.Nodup, List.pairwise_map]
  refine hascending.imp ?_
  intro a b hlt heq
  exact hlt.ne (congrArg Path.text heq)

namespace MountTable

variable {t : MountTable} {w s : Mount} {path : Path} {r : Resolved}

/-- Both archives have a file at the path, and the first outranks all others that have one. -/
def Wins (t : MountTable) (w s : Mount) (path : Path) : Prop :=
  w.archive.Holds path ∧ s.archive.Holds path ∧
    ∀ m ∈ t.mounts, m.archive.Holds path → m = w ∨ w.outranks m = true

/-- The archives that have a file at a path are the winner and those it shadows, which it
outranks. -/
theorem ranked_holders (ht : t.Sound) (h : t.overlay.resolve? path = some r) :
    ∃ (winner : Mount) (others : List Mount), r.winner = winner.archive.id ∧
      r.shadowed = others.map (fun m => m.archive.id) ∧
      (∀ m, m ∈ t.mounts ∧ m.archive.Holds path ↔ m = winner ∨ m ∈ others) ∧
      ∀ m ∈ others, winner.outranks m = true := by
  have harchives : (t.overlay.archives.filter fun a => a.contains path) =
      (t.mounts.filter fun m => m.archive.contains path).map Mount.archive := by
    rw [overlay, List.filter_map]
    rfl
  have hranked := ht.ranked.sublist
    (List.filter_sublist (p := fun m : Mount => m.archive.contains path))
  cases hholders : t.mounts.filter fun m => m.archive.contains path with
  | nil =>
      rw [hholders] at harchives
      rw [Overlay.resolve?_eq_none harchives] at h
      cases h
  | cons winner others =>
      rw [hholders] at harchives hranked
      obtain ⟨e, -, -, hresolve⟩ := Overlay.resolve?_eq_some harchives
      rw [hresolve] at h
      cases h
      refine ⟨winner, others, rfl, List.map_map, ?_, (List.pairwise_cons.mp hranked).1⟩
      intro m
      rw [← List.mem_cons, ← hholders, List.mem_filter, Archive.contains_iff]

theorem wins_iff (ht : t.Sound) (h : t.overlay.resolve? path = some r) (hw : w ∈ t.mounts)
    (hs : s ∈ t.mounts) :
    t.Wins w s path ∧ w ≠ s ↔ r.winner = w.archive.id ∧ s.archive.id ∈ r.shadowed := by
  obtain ⟨winner, others, hwinner, hshadowed, hmem, hranked⟩ := ranked_holders ht h
  obtain ⟨hwinnerMem, hwinnerHolds⟩ := (hmem winner).mpr (.inl rfl)
  rw [hwinner, hshadowed, List.mem_map]
  constructor
  · rintro ⟨⟨hwHolds, hsHolds, hfirst⟩, hne⟩
    -- Of two that have the path, only one can outrank the other.
    have heq : w = winner := by
      rcases (hmem w).mp ⟨hw, hwHolds⟩ with heq | hother
      · exact heq
      · rcases hfirst winner hwinnerMem hwinnerHolds with heq | hunder
        · exact heq.symm
        · exact absurd hunder (Mount.outranks_asymm (hranked w hother))
    subst heq
    rcases (hmem s).mp ⟨hs, hsHolds⟩ with heq | hother
    · exact absurd heq.symm hne
    · exact ⟨rfl, s, hother, rfl⟩
  · rintro ⟨hid, m, hm, hmid⟩
    obtain rfl := ht.mount_eq hwinnerMem hw hid
    obtain ⟨hmMem, hmHolds⟩ := (hmem m).mpr (.inr hm)
    obtain rfl := ht.mount_eq hmMem hs hmid
    refine ⟨⟨hwinnerHolds, hmHolds, ?_⟩, ?_⟩
    · intro other hother hotherHolds
      rcases (hmem other).mp ⟨hother, hotherHolds⟩ with heq | hbelow
      · exact .inl heq
      · exact .inr (hranked other hbelow)
    · rintro rfl
      exact Mount.outranks_asymm (hranked winner hm) (hranked winner hm)

/-- The conflicts between two archives are at the paths where the first wins over the second. -/
theorem exists_conflict_between_iff (ht : t.Sound) (hw : w ∈ t.mounts) (hs : s ∈ t.mounts)
    (path : Path) :
    (∃ r ∈ t.overlay.conflicts, r.path = path ∧ r.winner = w.archive.id ∧
      s.archive.id ∈ r.shadowed) ↔ t.Wins w s path ∧ w ≠ s := by
  constructor
  · rintro ⟨r, hr, rfl, hmeet⟩
    exact (wins_iff ht (Overlay.mem_conflicts.mp hr).1 hw hs).mpr hmeet
  · intro hwins
    have hseen : ∃ r, t.overlay.resolve? path = some r :=
      Overlay.exists_resolve?_iff.mpr ⟨w.archive, List.mem_map_of_mem hw, hwins.1.1⟩
    obtain ⟨r, hresolve⟩ := hseen
    have hmeet := (wins_iff ht hresolve hw hs).mp hwins
    obtain rfl := Overlay.resolve?_path hresolve
    refine ⟨r, Overlay.mem_conflicts.mpr ⟨hresolve, ?_⟩, rfl, hmeet⟩
    have hlength := Overlay.length_shadowed hresolve
    have hpos := List.length_pos_of_mem hmeet.2
    omega

/-- One archive shadows another as often as it wins over it. -/
theorem exists_paths_won (ht : t.Sound) (hw : w ∈ t.mounts) (hs : s ∈ t.mounts) (hne : w ≠ s)
    (hnodup : ∀ r ∈ t.overlay.conflicts, r.shadowed.Nodup) :
    ∃ paths : List Path, paths.Nodup ∧ (∀ path, path ∈ paths ↔ t.Wins w s path) ∧
      timesShadowed t.overlay.conflicts w.archive.id s.archive.id = paths.length := by
  refine ⟨(t.overlay.conflicts.filter fun r =>
    decide (r.winner = w.archive.id ∧ s.archive.id ∈ r.shadowed)).map Resolved.path, ?_, ?_, ?_⟩
  · exact t.overlay.conflicts_nodup.sublist (List.filter_sublist.map _)
  · intro path
    have hiff := exists_conflict_between_iff ht hw hs path
    simp only [hne, ne_eq, not_false_eq_true, and_true] at hiff
    rw [← hiff, List.mem_map]
    simp only [List.mem_filter, decide_eq_true_eq]
    constructor
    · rintro ⟨r, ⟨hr, hmeet⟩, hpath⟩
      exact ⟨r, hr, hpath, hmeet⟩
    · rintro ⟨r, hr, hpath, hmeet⟩
      exact ⟨r, ⟨hr, hmeet⟩, hpath⟩
  · rw [timesShadowed_eq hnodup, List.length_map]

/-- Every row is about two archives in use, of which the first outranks the second. -/
theorem exists_mounts_of_mem (ht : t.Sound) {row : ConflictCount}
    (h : row ∈ summarize t.overlay.conflicts) :
    ∃ w ∈ t.mounts, ∃ s ∈ t.mounts, row.winner = w.archive.id ∧ row.shadowed = s.archive.id ∧
      w.outranks s = true := by
  obtain ⟨hpos, hpaths⟩ := mem_summarize.mp h
  rw [hpaths, timesShadowed, List.countP_pos_iff] at hpos
  obtain ⟨met, hmet, hrow⟩ := hpos
  obtain ⟨r, hr, hmet⟩ := List.mem_flatMap.mp hmet
  obtain ⟨id, hid, rfl⟩ := List.mem_map.mp hmet
  obtain ⟨hrowWinner, hrowShadowed⟩ := of_decide_eq_true hrow
  obtain ⟨winner, others, hwinner, hshadowed, hmem, hranked⟩ :=
    ranked_holders ht (Overlay.mem_conflicts.mp hr).1
  rw [hshadowed, List.mem_map] at hid
  obtain ⟨s, hs, rfl⟩ := hid
  exact ⟨winner, ((hmem winner).mpr (.inl rfl)).1, s, ((hmem s).mpr (.inr hs)).1,
    hrowWinner.symm.trans hwinner, hrowShadowed.symm, hranked s hs⟩

end MountTable

namespace Overlay

/-- Each archive that has a file at a path is counted there, but one. -/
theorem sum_summarize (o : Overlay) :
    ((summarize o.conflicts).map ConflictCount.paths).sum =
      (o.paths.map fun path => o.holderCount path - 1).sum := by
  have hall : (o.paths.map fun path => o.holderCount path - 1) =
      (o.allBelow .root).map fun r => r.shadowed.length := by
    rw [allBelow_root, List.map_filterMap, ← List.filterMap_eq_map]
    apply List.filterMap_congr
    intro path hpath
    obtain ⟨r, hr⟩ := exists_resolve?_iff.mpr (mem_paths.mp hpath)
    have hlength := length_shadowed hr
    simp [hr]
    omega
  rw [hall, summarize_eq, Ordered.sum_collect ConflictCount.paths fun _ _ => rfl,
    conflicts_eq_filter]
  induction o.allBelow .root with
  | nil => rfl
  | cons r found ih =>
      have hones (ids : List ArchiveId) :
          ((ids.map fun id => (⟨r.winner, id, 1⟩ : ConflictCount)).map ConflictCount.paths).sum =
            ids.length := by
        simp [Function.comp_def]
      rw [List.map_cons, List.sum_cons, ← ih, List.filter_cons]
      split
      next hconflicted =>
        rw [shadowings, List.flatMap_cons, List.map_append, List.sum_append, hones]
        rfl
      next hconflicted =>
        have hnone : r.shadowed = [] := by
          simpa [Resolved.isConflicted] using hconflicted
        rw [hnone, List.length_nil, Nat.zero_add]

end Overlay

/-- After every run, the rows of the summary ascend by the bytes of their two names. There is a row
for just those two archives in use of which the first wins at least one path that both have, and it
tells how many there are. The first always outranks the second, and all rows together count, for
every path, the archives that have it but one. -/
theorem summary_run (requests : List MountRequest) :
    let t := (MountRun.of requests).table
    let rows := summarize t.overlay.conflicts
    (∀ row, row ∈ rows ↔
      ∃ w ∈ t.mounts, ∃ s ∈ t.mounts, w ≠ s ∧ row.winner = w.archive.id ∧
        row.shadowed = s.archive.id ∧ 1 ≤ row.paths ∧
        ∃ paths : List Path, paths.Nodup ∧ (∀ path, path ∈ paths ↔ t.Wins w s path) ∧
          row.paths = paths.length) ∧
    (∀ w ∈ t.mounts, ∀ s ∈ t.mounts, w.archive.id = s.archive.id → w = s) ∧
    rows.Pairwise (fun a b => Text.bytes a.winner.name < Text.bytes b.winner.name ∨
      a.winner = b.winner ∧ Text.bytes a.shadowed.name < Text.bytes b.shadowed.name) ∧
    (∀ row ∈ rows, ∀ w ∈ t.mounts, ∀ s ∈ t.mounts, row.winner = w.archive.id →
      row.shadowed = s.archive.id → w.outranks s = true) ∧
    (∀ row ∈ rows, ∀ other ∈ rows, ¬ (other.winner = row.shadowed ∧ other.shadowed = row.winner)) ∧
    ∃ paths : List Path, paths.Nodup ∧
      (∀ path, path ∈ paths ↔ ∃ m ∈ t.mounts, m.archive.Holds path) ∧
      (rows.map ConflictCount.paths).sum =
        (paths.map fun path =>
          (t.mounts.filter fun m => m.archive.contains path).length - 1).sum := by
  intro t rows
  have ht : t.Sound := MountRun.sound_of requests
  have hnodup : ∀ r ∈ t.overlay.conflicts, r.shadowed.Nodup := by
    intro r hr
    exact MountRun.shadowed_nodup (Overlay.mem_conflicts.mp hr).1
  have hranked : ∀ row ∈ rows, ∀ w ∈ t.mounts, ∀ s ∈ t.mounts, row.winner = w.archive.id →
      row.shadowed = s.archive.id → w.outranks s = true := by
    intro row hrow w hw s hs hwid hsid
    obtain ⟨w', hw', s', hs', hwid', hsid', houtranks⟩ := MountTable.exists_mounts_of_mem ht hrow
    obtain rfl := ht.mount_eq hw' hw (hwid'.symm.trans hwid)
    obtain rfl := ht.mount_eq hs' hs (hsid'.symm.trans hsid)
    exact houtranks
  refine ⟨?_, fun w hw s hs => ht.mount_eq hw hs, ?_, hranked, ?_, ?_⟩
  · intro row
    rw [mem_summarize]
    constructor
    · rintro ⟨hpos, hpaths⟩
      obtain ⟨w, hw, s, hs, hwid, hsid, houtranks⟩ :=
        MountTable.exists_mounts_of_mem ht (mem_summarize.mpr ⟨hpos, hpaths⟩)
      have hne : w ≠ s := by
        rintro rfl
        exact Mount.outranks_asymm houtranks houtranks
      obtain ⟨paths, hpathsNodup, hmem, hlength⟩ := MountTable.exists_paths_won ht hw hs hne hnodup
      rw [← hwid, ← hsid, ← hpaths] at hlength
      exact ⟨w, hw, s, hs, hne, hwid, hsid, hpos, paths, hpathsNodup, hmem, hlength⟩
    · rintro ⟨w, hw, s, hs, hne, hwid, hsid, hpos, paths, hpathsNodup, hmem, hlength⟩
      obtain ⟨paths', hnodup', hmem', hlength'⟩ := MountTable.exists_paths_won ht hw hs hne hnodup
      refine ⟨hpos, ?_⟩
      -- The paths of one archive's victories over another are the same in any list of them.
      have hperm : paths.Perm paths' :=
        (List.perm_ext_iff_of_nodup hpathsNodup hnodup').mpr
          fun path => (hmem path).trans (hmem' path).symm
      rw [hwid, hsid, hlength', hlength, hperm.length_eq]
  · refine (Ordered.collect_ascending ConflictCount.keyed _).imp ?_
    intro a b hlt
    rwa [Text.bytes_lt_iff, Text.bytes_lt_iff, ← ConflictCount.key_lt_iff]
  · rintro row hrow other hother ⟨hwinner, hshadowed⟩
    obtain ⟨w, hw, s, hs, hwid, hsid, houtranks⟩ := MountTable.exists_mounts_of_mem ht hrow
    have hback := hranked other hother s hs w hw (hwinner.trans hsid) (hshadowed.trans hwid)
    exact Mount.outranks_asymm houtranks hback
  · refine ⟨t.overlay.paths, ?_, ?_, ?_⟩
    · exact t.overlay.paths_ascending.imp fun hlt heq => hlt.ne (congrArg Path.text heq)
    · intro path
      rw [Overlay.mem_paths]
      simp [Overlay.Holds, MountTable.overlay]
    · rw [Overlay.sum_summarize]
      simp only [t.holderCount_overlay]

end ArchiveOverlay
