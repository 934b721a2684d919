import ArchiveOverlay.Archive.Basic
import ArchiveOverlay.Proofs.Path.Reading
import Mathlib.Data.List.Induction
import Mathlib.Data.List.Nodup

namespace ArchiveOverlay

/-- That a path lies strictly below a directory, segment by segment. -/
def Path.IsAbove (dir p : Path) : Prop :=
  ∃ key rest, p.segments = dir.segments ++ key :: rest

theorem Entry.path_segments (e : Entry) :
    e.path.segments = e.display.segments.map Text.lowercase := by
  rw [e.path_eq]
  rfl

/-- That an entry was made for an enumerated file. -/
structure RawEntry.Indexed (raw : RawEntry) (e : Entry) : Prop where
  parse : DisplayPath.parse raw.name = .ok e.display
  byteSize : e.byteSize = raw.byteSize
  checksum : e.checksum = raw.checksum
  handle : e.handle = raw.handle

namespace Archive

/-- That an archive has a file at a path. -/
def Holds (a : Archive) (path : Path) : Prop :=
  ∃ e ∈ a.entries, e.path = path

/-- That an archive has a file below a path. -/
def HasBelow (a : Archive) (path : Path) : Prop :=
  ∃ e ∈ a.entries, path.IsAbove e.path

/-- That an archive has a file at or below a path. -/
def Exposes (a : Archive) (path : Path) : Prop :=
  a.Holds path ∨ a.HasBelow path

theorem find?_some {a : Archive} {path : Path} {e : Entry} (h : a.find? path = some e) :
    e ∈ a.entries ∧ e.path = path :=
  ⟨List.mem_of_find?_eq_some h, by simpa using List.find?_some h⟩

theorem contains_iff {a : Archive} {path : Path} : a.contains path = true ↔ a.Holds path := by
  simp [contains, find?, Holds]

theorem addEntry_ok {id : ArchiveId} {entries entries' : List Entry} {raw : RawEntry}
    (h : addEntry id entries raw = .ok entries') :
    ∃ e, entries' = entries ++ [e] ∧ raw.Indexed e ∧ e.display.segments ≠ [] ∧
      ∀ other ∈ entries, other.path ≠ e.path := by
  unfold addEntry at h
  split at h
  · cases h
  next display hparse =>
    split at h
    · cases h
    next hsegments =>
      simp only at h
      split at h
      · cases h
      next hnew =>
        cases h
        refine ⟨_, rfl, ⟨hparse, rfl, rfl, rfl⟩, by simpa using hsegments, ?_⟩
        simpa using hnew

theorem indexEntries_concat (id : ArchiveId) (raw : List RawEntry) (last : RawEntry) :
    indexEntries id (raw ++ [last]) =
      (indexEntries id raw).bind fun entries => addEntry id entries last := by
  rw [indexEntries, List.foldlM_append]
  simp only [List.foldlM_cons, List.foldlM_nil, bind_pure]
  rfl

/-- What holds of no entries, and is kept by taking one more in, holds of the entries of an
archive. -/
theorem indexEntries_induction {P : List Entry → Prop} {id : ArchiveId} (hnil : P [])
    (hadd : ∀ entries raw entries', P entries → addEntry id entries raw = .ok entries' →
      P entries')
    {raw : List RawEntry} {entries : List Entry} (h : indexEntries id raw = .ok entries) :
    P entries := by
  induction raw using List.reverseRecOn generalizing entries with
  | nil =>
      cases h
      exact hnil
  | append_singleton raw last ih =>
      rw [indexEntries_concat] at h
      cases hbefore : indexEntries id raw with
      | error fault => simp [hbefore, Except.bind] at h
      | ok before =>
          rw [hbefore] at h
          exact hadd before last entries (ih hbefore) h

/-- Every entry has the path that some name spells out, and is not the root. -/
theorem exists_name (a : Archive) {e : Entry} (he : e ∈ a.entries) :
    ∃ name, DisplayPath.parse name = .ok e.display ∧ e.display.segments ≠ [] := by
  obtain ⟨raw, hraw⟩ := a.indexed
  refine indexEntries_induction (P := fun entries => ∀ e ∈ entries,
    ∃ name, DisplayPath.parse name = .ok e.display ∧ e.display.segments ≠ []) ?_ ?_ hraw e he
  · intro e he
    cases he
  · intro entries last entries' ih hadd e he
    obtain ⟨new, rfl, hindexed, hsegments, -⟩ := addEntry_ok hadd
    rcases List.mem_append.mp he with he | he
    · exact ih e he
    · rw [List.mem_singleton] at he
      subst he
      exact ⟨last.name, hindexed.parse, hsegments⟩

theorem paths_nodup (a : Archive) : (a.entries.map Entry.path).Nodup := by
  obtain ⟨raw, hraw⟩ := a.indexed
  refine indexEntries_induction (P := fun entries => (entries.map Entry.path).Nodup) ?_ ?_ hraw
  · exact List.nodup_nil
  · intro entries last entries' ih hadd
    obtain ⟨new, rfl, -, -, hnew⟩ := addEntry_ok hadd
    rw [List.map_append, List.map_singleton, ← List.concat_eq_append, List.nodup_concat]
    refine ⟨?_, ih⟩
    intro hmem
    obtain ⟨other, hother, hpath⟩ := List.mem_map.mp hmem
    exact hnew other hother hpath

theorem eq_of_path_eq (a : Archive) {e f : Entry} (he : e ∈ a.entries) (hf : f ∈ a.entries)
    (h : e.path = f.path) : e = f :=
  List.inj_on_of_nodup_map a.paths_nodup he hf h

/-- What is found at a path is all that an archive has there. -/
theorem filter_path (a : Archive) (path : Path) :
    (a.entries.filter fun e => decide (e.path = path)) = (a.find? path).toList := by
  cases hfind : a.find? path with
  | none => simpa [find?] using hfind
  | some e =>
      rw [find?, List.find?_eq_some_iff_append] at hfind
      obtain ⟨hpath, front, back, hentries, hfront⟩ := hfind
      have hback : ∀ other ∈ back, ¬ decide (other.path = path) = true := by
        intro other hother hsame
        have hnodup := a.paths_nodup
        rw [hentries, List.map_append, List.map_cons, List.nodup_append] at hnodup
        refine (List.nodup_cons.mp hnodup.2.1).1 ?_
        rw [of_decide_eq_true hpath, ← of_decide_eq_true hsame]
        exact List.mem_map_of_mem hother
      rw [hentries, List.filter_append, List.filter_cons, if_pos hpath,
        List.filter_eq_nil_iff.mpr (by simpa using hfront), List.filter_eq_nil_iff.mpr hback]
      rfl

theorem canonical_of_mem (a : Archive) {e : Entry} (he : e ∈ a.entries) : e.path.Canonical := by
  obtain ⟨name, hparse, -⟩ := a.exists_name he
  rw [e.path_eq]
  exact Path.canonical_ofDisplay (DisplayPath.ordinary_of_parse hparse)

theorem Exposes.canonical {a : Archive} {path : Path} (h : a.Exposes path) : path.Canonical := by
  rcases h with ⟨e, he, rfl⟩ | ⟨e, he, key, rest, hsegments⟩
  · exact a.canonical_of_mem he
  · intro s hs
    exact a.canonical_of_mem he s (by rw [hsegments]; simp [hs])

end Archive

end ArchiveOverlay
