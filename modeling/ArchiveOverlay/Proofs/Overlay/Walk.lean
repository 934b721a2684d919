import ArchiveOverlay.Proofs.Overlay.Listing
import ArchiveOverlay.Proofs.Path.Below
import ArchiveOverlay.Proofs.Text.ByteOrder

/-!
All files below a directory. They are found by filtering the paths of all archives. Main statement:
after every run this gives just the files that are met by listing one directory after the other.
-/

namespace ArchiveOverlay

theorem Path.keyed :
    Ordered.Keyed (fun a b : Path => Text.before a.text b.text) (fun a _ => a) Path.text where
  before_iff := fun _ _ => Text.before_iff_lt
  key_merge := fun _ _ => rfl

namespace Overlay

variable {o : Overlay} {dir path : Path} {raw : String} {r : Resolved}

/-- The files that are met on the way down from a directory. A member that is a file and a
directory is both resolved and entered. -/
inductive Meets (o : Overlay) : String → Resolved → Prop
  | file {raw : String} {items : List Item} {item : Item} {r : Resolved} :
      o.list raw = .ok items → item ∈ items → item.isFile = true →
      o.resolve item.path.text = .ok r → Meets o raw r
  | deeper {raw : String} {items : List Item} {item : Item} {r : Resolved} :
      o.list raw = .ok items → item ∈ items → item.isDirectory = true →
      Meets o item.path.text r → Meets o raw r

theorem Holds.canonical (h : o.Holds path) : path.Canonical := by
  obtain ⟨a, -, hholds⟩ := h
  exact Archive.Exposes.canonical (.inl hholds)

theorem resolve?_path (h : o.resolve? path = some r) : r.path = path := by
  rw [resolve?] at h
  split at h
  · cases h
  · cases h
    rfl

theorem holds_of_resolve? (h : o.resolve? path = some r) : o.Holds path :=
  exists_resolve?_iff.mp ⟨r, h⟩

theorem resolve_text_iff (h : path.Canonical) :
    o.resolve path.text = .ok r ↔ o.resolve? path = some r := by
  rw [resolve_of_parse_ok (Path.parse_text h)]
  cases o.resolve? path <;> simp

theorem resolve?_of_resolve (h : o.resolve raw = .ok r) : ∃ path, o.resolve? path = some r := by
  cases hparse : Path.parse raw with
  | error fault =>
      rw [resolve_of_parse_error hparse] at h
      cases h
  | ok path =>
      rw [resolve_of_parse_ok hparse] at h
      cases hseen : o.resolve? path with
      | none =>
          rw [hseen] at h
          cases h
      | some seen =>
          rw [hseen] at h
          cases h
          exact ⟨path, hseen⟩

theorem canonical_of_member {item : Item} (h : item ∈ o.members dir) :
    item.path = dir.child item.key ∧ item.path.Canonical := by
  obtain ⟨hpath, above, a, below, -, hexposes, -⟩ := member_first h
  exact ⟨hpath, hexposes.canonical⟩

/-- The paths of an overlay are those of the files in its archives. -/
theorem mem_paths : path ∈ o.paths ↔ o.Holds path := by
  have hrows : ∀ p, p ∈ o.archives.flatMap (fun a => a.entries.map Entry.path) ↔ o.Holds p := by
    intro p
    simp [Holds, Archive.Holds]
  rw [paths, Ordered.mem_collect_iff Path.keyed (fun _ _ => rfl), hrows]
  intro p hp q hq htext
  exact Path.text_injective ((hrows p).mp hp).canonical ((hrows q).mp hq).canonical htext

theorem paths_ascending (o : Overlay) : Ordered.Ascending Path.text o.paths :=
  Ordered.collect_ascending Path.keyed _

/-- All files below a directory. -/
def allBelow (o : Overlay) (dir : Path) : List Resolved :=
  (o.paths.filter fun p => p.isBelow dir).filterMap o.resolve?

theorem mem_allBelow (hdir : dir.Canonical) :
    r ∈ o.allBelow dir ↔ dir.IsAbove r.path ∧ o.resolve? r.path = some r := by
  simp only [allBelow, List.mem_filterMap, List.mem_filter, mem_paths]
  constructor
  · rintro ⟨p, ⟨hholds, hbelow⟩, hresolve⟩
    rw [resolve?_path hresolve]
    exact ⟨(Path.isBelow_iff hholds.canonical hdir).mp hbelow, hresolve⟩
  · rintro ⟨habove, hresolve⟩
    have hholds := holds_of_resolve? hresolve
    exact ⟨r.path, ⟨hholds, (Path.isBelow_iff hholds.canonical hdir).mpr habove⟩, hresolve⟩

theorem allBelow_ascending (o : Overlay) (dir : Path) :
    (o.allBelow dir).Pairwise fun a b => a.path.text < b.path.text := by
  rw [allBelow, List.pairwise_filterMap]
  refine (o.paths_ascending.sublist List.filter_sublist).imp ?_
  intro p q hpq a ha b hb
  rw [resolve?_path ha, resolve?_path hb]
  exact hpq

theorem walk_of_parse_error {fault : PathFault} (h : Path.parse raw = .error fault) :
    o.walk raw = .error (.invalidPath raw fault) := by
  simp [walk, parsePath, h, Except.mapError, bind, Except.bind]

theorem walk_of_parse_ok (h : Path.parse raw = .ok dir) :
    o.walk raw = (o.requireDirectory dir).map fun _ => o.allBelow dir := by
  simp only [walk, parsePath, h, Except.mapError, bind, Except.bind, walkPath]
  cases o.requireDirectory dir <;> rfl

theorem eq_allBelow_of_walk {found : List Resolved} (hparse : Path.parse raw = .ok dir)
    (hwalk : o.walk raw = .ok found) : found = o.allBelow dir := by
  rw [walk_of_parse_ok hparse] at hwalk
  cases hrequire : o.requireDirectory dir with
  | error e =>
      rw [hrequire] at hwalk
      cases hwalk
  | ok _ =>
      rw [hrequire] at hwalk
      cases hwalk
      rfl

/-- A directory can be walked if it can be listed, and is refused with the same complaint. -/
theorem walk_of_list (o : Overlay) (raw : String) :
    match o.list raw with
    | .error e => o.walk raw = .error e
    | .ok _ => ∃ dir, Path.parse raw = .ok dir ∧ o.walk raw = .ok (o.allBelow dir) := by
  cases hparse : Path.parse raw with
  | error fault =>
      rw [list_of_parse_error hparse]
      exact walk_of_parse_error hparse
  | ok dir =>
      rw [list_of_parse_ok hparse, walk_of_parse_ok hparse]
      cases o.requireDirectory dir with
      | error e => rfl
      | ok _ => exact ⟨dir, rfl, rfl⟩

/-- Whatever is met on the way down lies below the start and is what is seen at its path. -/
theorem Meets.below_start (h : o.Meets raw r) (hparse : Path.parse raw = .ok dir) :
    dir.IsAbove r.path ∧ o.resolve? r.path = some r := by
  induction h generalizing dir with
  | file hlist hitem hfile hresolve =>
      rw [list_eq_ok hparse hlist] at hitem
      obtain ⟨hpath, hcanonical⟩ := canonical_of_member hitem
      have hseen := (resolve_text_iff hcanonical).mp hresolve
      rw [resolve?_path hseen]
      exact ⟨hpath ▸ dir.isAbove_child _, hseen⟩
  | deeper hlist hitem hdirectory hmeets ih =>
      rw [list_eq_ok hparse hlist] at hitem
      obtain ⟨hpath, hcanonical⟩ := canonical_of_member hitem
      obtain ⟨habove, hseen⟩ := ih (Path.parse_text hcanonical)
      rw [hpath] at habove
      exact ⟨(dir.isAbove_child _).trans habove, hseen⟩

theorem listable_of_isAbove (hholds : o.Holds path) (h : dir.IsAbove path) : o.Listable dir := by
  obtain ⟨a, ha, e, he, rfl⟩ := hholds
  exact .inr ⟨a, ha, e, he, h⟩

theorem exists_member_of_isAbove {key : String} (hholds : o.Holds path)
    (h : path = dir.child key ∨ (dir.child key).IsAbove path) :
    ∃ item ∈ o.members dir, item.key = key := by
  obtain ⟨a, ha, e, he, rfl⟩ := hholds
  refine exists_member_iff.mpr ⟨a, ha, ?_⟩
  rcases h with h | h
  · exact .inl ⟨e, he, h⟩
  · exact .inr ⟨e, he, h⟩

/-- Every file below a directory is met on the way down. -/
theorem meets_of_isAbove (hparse : Path.parse raw = .ok dir) (habove : dir.IsAbove r.path)
    (hresolve : o.resolve? r.path = some r) : o.Meets raw r := by
  have hholds := holds_of_resolve? hresolve
  -- The way down has as many steps as the path has segments beyond the directory's.
  generalize hsteps : r.path.segments.length - dir.segments.length = steps
  induction steps generalizing raw dir with
  | zero =>
      obtain ⟨key, rest, hsegments⟩ := habove
      rw [hsegments, List.length_append, List.length_cons] at hsteps
      omega
  | succ steps ih =>
      obtain ⟨items, hlist⟩ := (exists_list_iff hparse).mpr (listable_of_isAbove hholds habove)
      obtain ⟨key, hcases⟩ := habove.cases
      obtain ⟨item, hitem, rfl⟩ := exists_member_of_isAbove hholds hcases
      obtain ⟨hpath, hcanonical⟩ := canonical_of_member hitem
      have hmem : item ∈ items := by rwa [list_eq_ok hparse hlist]
      rcases hcases with hhere | hdeeper
      · refine .file hlist hmem ?_ ?_
        · rw [member_isFile hitem, ← hhere]
          exact hholds
        · rw [resolve_text_iff hcanonical, hpath, ← hhere]
          exact hresolve
      · refine .deeper hlist hmem ?_ (ih (Path.parse_text hcanonical) (hpath ▸ hdeeper) ?_)
        · rw [member_isDirectory hitem]
          exact listable_of_isAbove hholds hdeeper
        · rw [hpath, Path.child, List.length_append, List.length_singleton]
          omega

end Overlay

/-- After every run, a directory can be walked if it can be listed. The walk gives each file once
that is met on the way down, ascending by the bytes of the paths, and each as it is seen at its
path. -/
theorem walk_run (requests : List MountRequest) (raw : String) :
    let o := (MountRun.of requests).table.overlay
    match o.list raw with
    | .error e => o.walk raw = .error e
    | .ok _ =>
      ∃ found, o.walk raw = .ok found ∧
        found.Pairwise (fun a b => Text.bytes a.path.text < Text.bytes b.path.text) ∧
        (∀ r, r ∈ found ↔ o.Meets raw r) ∧
        ∀ r ∈ found, o.resolve r.path.text = .ok r ∧ Path.parse raw ≠ .ok r.path := by
  intro o
  have hwalk := o.walk_of_list raw
  cases hlist : o.list raw with
  | error e =>
      rw [hlist] at hwalk
      exact hwalk
  | ok items =>
      rw [hlist] at hwalk
      obtain ⟨dir, hparse, hwalk⟩ := hwalk
      have hcanonical := Path.canonical_of_parse hparse
      refine ⟨o.allBelow dir, hwalk, ?_, ?_, ?_⟩
      · exact (o.allBelow_ascending dir).imp Text.bytes_lt_iff.mpr
      · intro r
        rw [Overlay.mem_allBelow hcanonical]
        constructor
        · rintro ⟨habove, hresolve⟩
          exact Overlay.meets_of_isAbove hparse habove hresolve
        · intro hmeets
          exact hmeets.below_start hparse
      · intro r hr
        obtain ⟨habove, hresolve⟩ := (Overlay.mem_allBelow hcanonical).mp hr
        have hholds := Overlay.holds_of_resolve? hresolve
        refine ⟨(Overlay.resolve_text_iff hholds.canonical).mpr hresolve, ?_⟩
        intro hself
        rw [hparse] at hself
        cases hself
        obtain ⟨key, rest, hsegments⟩ := habove
        simp at hsegments

end ArchiveOverlay
