import ArchiveOverlay.Proofs.Archive.Children
import ArchiveOverlay.Proofs.Archive.Loading
import ArchiveOverlay.Proofs.Text.ByteOrder
import Mathlib.Data.List.Perm.Basic
import Mathlib.Order.Bounds.Basic

/-!
The directories of an archive are determined by how its entries are spelled. Neither the order in
which the files were enumerated nor that in which the entries are gone through makes a difference.
-/

namespace ArchiveOverlay

open Ordered

namespace Child

/-- That a member is what was seen of it in all of these. -/
structure Joins (cs : List Child) (c : Child) : Prop where
  key : ∃ seen ∈ cs, seen.key = c.key
  name : IsLeast {name | ∃ seen ∈ cs, seen.name = name} c.name
  isFile : c.isFile = true ↔ ∃ seen ∈ cs, seen.isFile = true
  isDirectory : c.isDirectory = true ↔ ∃ seen ∈ cs, seen.isDirectory = true

theorem joins_of_mergeAll {cs : List Child} {c : Child} (h : mergeAll merge cs = some c) :
    Joins cs c := by
  have hfirst : ∀ a b, (merge a b).key = a.key := fun _ _ => rfl
  refine ⟨?_, ?_, ?_, ?_⟩
  · have hhead := mergeAll_first key hfirst cs
    rw [h, Option.map_some] at hhead
    obtain ⟨first, hmem, hkey⟩ := Option.map_eq_some_iff.mp hhead.symm
    exact ⟨first, List.mem_of_head? hmem, hkey⟩
  · obtain ⟨hsome, hleast⟩ := mergeAll_least name (fun _ _ => Text.earlier_eq_min _ _) h
    refine ⟨hsome, ?_⟩
    rintro _ ⟨seen, hseen, rfl⟩
    exact hleast seen hseen
  · rw [mergeAll_any isFile (fun _ _ => rfl) h, List.any_eq_true]
  · rw [mergeAll_any isDirectory (fun _ _ => rfl) h, List.any_eq_true]

theorem Joins.eq {k : String} {cs : List Child} (hkey : ∀ seen ∈ cs, seen.key = k) {c c' : Child}
    (h : Joins cs c) (h' : Joins cs c') : c = c' := by
  obtain ⟨seen, hseen, hk⟩ := h.key
  obtain ⟨seen', hseen', hk'⟩ := h'.key
  have hsame : c.key = c'.key := by rw [← hk, ← hk', hkey seen hseen, hkey seen' hseen']
  have hfile : c.isFile = c'.isFile := Bool.eq_iff_iff.mpr (h.isFile.trans h'.isFile.symm)
  have hdirectory : c.isDirectory = c'.isDirectory :=
    Bool.eq_iff_iff.mpr (h.isDirectory.trans h'.isDirectory.symm)
  rcases c with ⟨key, name, isFile, isDirectory⟩
  exact (mk.injEq ..).mpr ⟨hsame, h.name.unique h'.name, hfile, hdirectory⟩

theorem Joins.congr {cs cs' : List Child} (hsame : ∀ c, c ∈ cs ↔ c ∈ cs') {c : Child}
    (h : Joins cs c) : Joins cs' c := by
  obtain ⟨hkey, hname, hfile, hdirectory⟩ := h
  simp only [hsame] at hkey hname hfile hdirectory
  exact ⟨hkey, hname, hfile, hdirectory⟩

/-- A member seen in many entries is the same in whichever order they come. -/
theorem mergeAll_congr {k : String} {cs cs' : List Child} (hkey : ∀ c ∈ cs, c.key = k)
    (hsame : ∀ c, c ∈ cs ↔ c ∈ cs') : mergeAll merge cs = mergeAll merge cs' := by
  cases hc : mergeAll merge cs with
  | none =>
      rw [mergeAll_eq_none_iff] at hc
      subst hc
      have hnil : cs' = [] :=
        List.eq_nil_iff_forall_not_mem.mpr fun c hc => List.not_mem_nil ((hsame c).mpr hc)
      rw [hnil]
      rfl
  | some c =>
      have hjoins := joins_of_mergeAll hc
      obtain ⟨seen, hseen, -⟩ := hjoins.key
      cases hc' : mergeAll merge cs' with
      | none =>
          rw [mergeAll_eq_none_iff] at hc'
          rw [hsame, hc'] at hseen
          cases hseen
      | some c' =>
          have hjoins' := (joins_of_mergeAll hc').congr fun c => (hsame c).symm
          rw [hjoins.eq hkey hjoins']

end Child

namespace Directory

theorem collect_congr {cs cs' : List Child} (hsame : ∀ c, c ∈ cs ↔ c ∈ cs') :
    collect (fun a b => Text.before a.key b.key) Child.merge cs =
      collect (fun a b => Text.before a.key b.key) Child.merge cs' := by
  refine (collect_ascending keyed cs).ext (collect_ascending keyed cs') fun k => ?_
  rw [find?_collect keyed, find?_collect keyed]
  refine Child.mergeAll_congr (k := k) (fun c hc => ?_) fun c => ?_
  · exact of_decide_eq_true (List.mem_filter.mp hc).2
  · rw [List.mem_filter, List.mem_filter, hsame]

/-- How entries are spelled decides what the directories are. -/
theorem childrenAt_ofEntries_congr {entries entries' : List Entry}
    (hsame : ∀ display, display ∈ entries.map Entry.display ↔ display ∈ entries'.map Entry.display)
    (d : Path) : childrenAt (ofEntries entries) d = childrenAt (ofEntries entries') d := by
  have hplaced : ∀ c, c ∈ placedAt (entries.flatMap Entry.placements) d ↔
      c ∈ placedAt (entries'.flatMap Entry.placements) d := by
    intro c
    simp only [List.mem_map] at hsame
    rw [mem_placedAt, mem_placedAt]
    constructor
    · rintro ⟨e, he, hsplit⟩
      obtain ⟨e', he', hdisplay⟩ := (hsame e.display).mp ⟨e, he, rfl⟩
      exact ⟨e', he', by rwa [hdisplay]⟩
    · rintro ⟨e', he', hsplit⟩
      obtain ⟨e, he, hdisplay⟩ := (hsame e'.display).mpr ⟨e', he', rfl⟩
      exact ⟨e, he, by rwa [hdisplay]⟩
  rw [ofEntries, childrenAt_foldl, ofEntries, childrenAt_foldl, collect_congr hplaced]
  simp only [List.eq_nil_iff_forall_not_mem, hplaced]

end Directory

namespace Archive

variable {a b : Archive}

theorem children?_congr
    (hsame : ∀ display, display ∈ a.entries.map Entry.display ↔
      display ∈ b.entries.map Entry.display)
    (d : Path) : a.children? d = b.children? d := by
  rw [children?, a.directories_eq, children?, b.directories_eq]
  exact Directory.childrenAt_ofEntries_congr hsame d

theorem child?_congr {d : Path} (h : a.children? d = b.children? d) (k : String) :
    a.child? d k = b.child? d k := by
  rw [child?, h, child?]

theorem isDirectory_congr {d : Path} (h : a.children? d = b.children? d) :
    a.isDirectory d = b.isDirectory d := by
  rw [isDirectory, h, isDirectory]

theorem addEntry_of_indexed {id : ArchiveId} {entries : List Entry} {raw : RawEntry} {e : Entry}
    (hindexed : raw.Indexed e) (hsegments : e.display.segments ≠ [])
    (hnew : ∀ other ∈ entries, other.path ≠ e.path) :
    addEntry id entries raw = .ok (entries ++ [e]) := by
  obtain ⟨hparse, hsize, hchecksum, hhandle⟩ := hindexed
  have hfree : ¬ entries.any (fun other => decide (other.path = .ofDisplay e.display)) = true := by
    rw [← e.path_eq]
    simpa using hnew
  rcases e with ⟨display, path, size, checksum, handle, rfl⟩
  subst hsize hchecksum hhandle
  rw [addEntry, hparse]
  simp only [List.isEmpty_iff, hsegments, if_false, hfree]
  rfl

/-- Files of which every one has a path of its own are taken in one after the other. -/
theorem foldlM_addEntry {id : ArchiveId} {raws : List RawEntry} {entries : List Entry}
    (hindexed : List.Forall₂ RawEntry.Indexed raws entries)
    (hsegments : ∀ e ∈ entries, e.display.segments ≠ []) (before : List Entry)
    (hpaths : ((before ++ entries).map Entry.path).Nodup) :
    raws.foldlM (addEntry id) before = .ok (before ++ entries) := by
  induction hindexed generalizing before with
  | nil =>
      rw [List.append_nil]
      rfl
  | @cons raw e raws entries hraw _ ih =>
      have hnew : ∀ other ∈ before, other.path ≠ e.path := by
        intro other hother
        rw [List.map_append, List.nodup_append] at hpaths
        exact hpaths.2.2 _ (List.mem_map_of_mem hother) _ (by simp)
      have hrest := ih (fun other hother => hsegments other (by simp [hother])) (before ++ [e])
        (by simpa using hpaths)
      rw [List.append_assoc, List.singleton_append] at hrest
      rw [List.foldlM_cons, addEntry_of_indexed hraw (hsegments e (by simp)) hnew]
      exact hrest

theorem build_of_indexEntries {id : ArchiveId} {raws : List RawEntry} {entries : List Entry}
    (h : indexEntries id raws = .ok entries) (backing : Backing) :
    ∃ a, build id backing raws = .ok a ∧ a.entries = entries := by
  unfold build
  split
  next e he => simp [h] at he
  next entries' hentries =>
    obtain rfl : entries' = entries := by simpa [h] using hentries.symm
    exact ⟨_, rfl, rfl⟩

/-- Which files make an archive: each has a path that is not the root, and no two the same. -/
theorem exists_build_iff {id : ArchiveId} {backing : Backing} {raws : List RawEntry}
    {entries : List Entry} :
    (∃ a, build id backing raws = .ok a ∧ a.entries = entries) ↔
      List.Forall₂ RawEntry.Indexed raws entries ∧ (∀ e ∈ entries, e.display.segments ≠ []) ∧
        (entries.map Entry.path).Nodup := by
  constructor
  · rintro ⟨a, ha, rfl⟩
    obtain ⟨-, -, hindexed⟩ := build_ok ha
    refine ⟨hindexed, ?_, a.paths_nodup⟩
    intro e he
    obtain ⟨-, -, hsegments⟩ := a.exists_name he
    exact hsegments
  · rintro ⟨hindexed, hsegments, hpaths⟩
    exact build_of_indexEntries (foldlM_addEntry hindexed hsegments [] hpaths) backing

/-- Files in another order make an archive with the same entries. -/
theorem build_perm {id : ArchiveId} {backing : Backing} {raws raws' : List RawEntry}
    (h : build id backing raws = .ok a) (hraws : raws'.Perm raws) (backing' : Backing) :
    ∃ a', build id backing' raws' = .ok a' ∧ a'.entries.Perm a.entries := by
  obtain ⟨hindexed, hsegments, hpaths⟩ := exists_build_iff.mp ⟨a, h, rfl⟩
  obtain ⟨entries', hindexed', hperm⟩ := List.perm_comp_forall₂ hraws hindexed
  obtain ⟨a', ha', rfl⟩ := exists_build_iff.mpr ⟨hindexed',
    fun e he => hsegments e (hperm.mem_iff.mp he), (hperm.map Entry.path).nodup_iff.mpr hpaths⟩
  exact ⟨a', ha', hperm⟩

variable {d : Path} {k : String}

theorem exposes_iff {path : Path} :
    a.Exposes path ↔ ∃ e ∈ a.entries, path.segments <+: e.path.segments := by
  constructor
  · rintro (⟨e, he, rfl⟩ | ⟨e, he, key, rest, hbelow⟩)
    · exact ⟨e, he, List.prefix_refl _⟩
    · exact ⟨e, he, key :: rest, hbelow.symm⟩
  · rintro ⟨e, he, rest, hrest⟩
    cases rest with
    | nil =>
        left
        refine ⟨e, he, ?_⟩
        rcases hpath : e.path with ⟨segments⟩
        rw [hpath, List.append_nil] at hrest
        exact congrArg Path.mk hrest.symm
    | cons key rest => exact .inr ⟨e, he, key, rest, hrest.symm⟩

/-- The spellings of a member, read off the entries at its path and below it. -/
theorem spells_iff {name : String} :
    a.Spells d name ∧ Text.lowercase name = k ↔
      ∃ e ∈ a.entries, (d.child k).segments <+: e.path.segments ∧
        e.display.segments[d.segments.length]? = some name := by
  constructor
  · rintro ⟨⟨e, he, front, rest, hsplit, hd⟩, rfl⟩
    refine ⟨e, he, ⟨rest.map Text.lowercase, ?_⟩, ?_⟩
    · rw [path_of_split hsplit hd, Path.child]
      simp
    · rw [hsplit, hd, List.length_map]
      simp
  · rintro ⟨e, he, ⟨rest, hrest⟩, hname⟩
    have hpath : e.path.segments = d.segments ++ k :: rest := by
      rw [← hrest, Path.child]
      simp
    obtain ⟨front, name', rest', hsplit, hd, hkey, -⟩ := split_of_path hpath
    obtain rfl : name' = name := by
      rw [hsplit, hd, List.length_map] at hname
      simpa using hname
    exact ⟨⟨e, he, front, rest', hsplit, hd⟩, hkey⟩

theorem mem_children?_iff {c : Child} :
    c ∈ (a.children? d).getD [] ↔ a.child? d c.key = some c := by
  cases hchildren : a.children? d with
  | none => simp [child?, hchildren]
  | some children =>
      rw [child?, hchildren]
      exact (children_ascending hchildren).mem_iff

end Archive

/-- The directories of an archive against the files that it was built from. A directory has a
member under a key if there is an entry at the member's path or below it; the flags of the member
tell where, and it is shown in the spelling that comes first byte by byte. The members ascend by
key, and none of this changes with the order of the entries or of the files. -/
theorem children_indexed {id : ArchiveId} {backing : Backing} {raws : List RawEntry} {a : Archive}
    (h : Archive.build id backing raws = .ok a) (d : Path) :
    List.Forall₂ RawEntry.Indexed raws a.entries ∧
    (∀ k, ((a.child? d k).isSome = true ↔
      ∃ e ∈ a.entries, (d.child k).segments <+: e.path.segments)) ∧
    (∀ k c, a.child? d k = some c →
      c.key = k ∧
      (c.isFile = true ↔ ∃ e ∈ a.entries, e.path = d.child k) ∧
      (c.isDirectory = true ↔ ∃ e ∈ a.entries, (d.child k).IsAbove e.path) ∧
      (∃ e ∈ a.entries, (d.child k).segments <+: e.path.segments ∧
        e.display.segments[d.segments.length]? = some c.name) ∧
      ∀ e ∈ a.entries, (d.child k).segments <+: e.path.segments →
        ∀ name, e.display.segments[d.segments.length]? = some name →
          Text.bytes c.name ≤ Text.bytes name) ∧
    (a.isDirectory d = true ↔ ∃ e ∈ a.entries, d.IsAbove e.path) ∧
    (∀ c, c ∈ (a.children? d).getD [] ↔ ∃ k, a.child? d k = some c) ∧
    ((a.children? d).getD []).Pairwise (fun c c' => Text.bytes c.key < Text.bytes c'.key) ∧
    (∀ entries', entries'.Perm a.entries →
      Directory.childrenAt (Directory.ofEntries entries') d = a.children? d) ∧
    ∀ raws', raws'.Perm raws → ∀ backing', ∃ a', Archive.build id backing' raws' = .ok a' ∧
      a'.children? d = a.children? d ∧ (∀ k, a'.child? d k = a.child? d k) ∧
      a'.isDirectory d = a.isDirectory d := by
  obtain ⟨-, -, hindexed⟩ := Archive.build_ok h
  refine ⟨hindexed, ?_, ?_, Archive.isDirectory_iff, ?_, ?_, ?_, ?_⟩
  · intro k
    rw [Option.isSome_iff_exists, Archive.exists_child?_iff, Archive.exposes_iff]
  · intro k c hc
    obtain ⟨hkey, hfile, hdirectory⟩ := Archive.child?_spec hc
    obtain ⟨hspelled, hleast⟩ := Archive.child?_names hc
    refine ⟨hkey, hfile, hdirectory, Archive.spells_iff.mp hspelled, ?_⟩
    intro e he hbelow name hname
    have hle : c.name ≤ name := hleast (Archive.spells_iff.mpr ⟨e, he, hbelow, hname⟩)
    rw [← List.not_lt, Text.bytes_lt_iff]
    exact not_lt.mpr hle
  · intro c
    rw [Archive.mem_children?_iff]
    constructor
    · exact fun hc => ⟨c.key, hc⟩
    · rintro ⟨k, hc⟩
      obtain ⟨rfl, -⟩ := Archive.child?_spec hc
      exact hc
  · cases hchildren : a.children? d with
    | none => exact .nil
    | some children =>
        exact (Archive.children_ascending hchildren).imp fun hlt => Text.bytes_lt_iff.mpr hlt
  · intro entries' hperm
    rw [Archive.children?, a.directories_eq]
    exact Directory.childrenAt_ofEntries_congr
      (fun display => (hperm.map Entry.display).mem_iff) d
  · intro raws' hraws backing'
    obtain ⟨a', ha', hperm⟩ := Archive.build_perm h hraws backing'
    have hchildren : a'.children? d = a.children? d :=
      Archive.children?_congr (fun display => (hperm.map Entry.display).mem_iff) d
    exact ⟨a', ha', hchildren, Archive.child?_congr hchildren, Archive.isDirectory_congr hchildren⟩

theorem children_indexed_mixed : ∃ a,
    Archive.build ⟨"base"⟩ (.memory [])
      [⟨"d/a/x", 1, 0, 0⟩, ⟨"D\\B", 2, 0, 1⟩, ⟨"D/A", 3, 0, 2⟩] = .ok a ∧
    a.child? ⟨["d"]⟩ "a" = some ⟨"a", "A", true, true⟩ ∧
    (∃ e ∈ a.entries, e.path = ⟨["d", "a"]⟩) ∧
    (∃ e ∈ a.entries, Path.IsAbove ⟨["d", "a"]⟩ e.path) ∧
    ∃ a', Archive.build ⟨"base"⟩ (.memory [])
        [⟨"D/A", 3, 0, 2⟩, ⟨"d/a/x", 1, 0, 0⟩, ⟨"D\\B", 2, 0, 1⟩] = .ok a' ∧
      a'.children? ⟨["d"]⟩ = a.children? ⟨["d"]⟩ := by
  have hbuild : ∃ a, Archive.build ⟨"base"⟩ (.memory [])
      [⟨"d/a/x", 1, 0, 0⟩, ⟨"D\\B", 2, 0, 1⟩, ⟨"D/A", 3, 0, 2⟩] = .ok a ∧
      a.child? ⟨["d"]⟩ "a" = some ⟨"a", "A", true, true⟩ := ⟨_, rfl, rfl⟩
  obtain ⟨a, ha, hc⟩ := hbuild
  obtain ⟨-, -, hchild, -, -, -, -, hraws⟩ := children_indexed ha ⟨["d"]⟩
  obtain ⟨-, hfile, hdirectory, -, -⟩ := hchild "a" _ hc
  have hrotated := List.perm_append_singleton (⟨"D/A", 3, 0, 2⟩ : RawEntry)
    [⟨"d/a/x", 1, 0, 0⟩, ⟨"D\\B", 2, 0, 1⟩]
  obtain ⟨a', ha', hsame, -, -⟩ := hraws _ hrotated.symm (.memory [])
  exact ⟨a, ha, hc, hfile.mp rfl, hdirectory.mp rfl, a', ha', hsame⟩

end ArchiveOverlay
