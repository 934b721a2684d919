import ArchiveOverlay.Proofs.Archive.Entries
import ArchiveOverlay.Proofs.Ordered
import Mathlib.Order.Bounds.Defs

namespace ArchiveOverlay

/-- The member that a segment of an entry stands for, given the segments after it. -/
def Child.ofSegment (name : String) (rest : List String) : Child :=
  ⟨Text.lowercase name, name, rest.isEmpty, !rest.isEmpty⟩

theorem placements_cons (dir : Path) (name : String) (names : List String) :
    placements dir ((name :: names).map fun s => (Text.lowercase s, s)) =
      (dir, .ofSegment name names) ::
        placements (dir.child (Text.lowercase name))
          (names.map fun s => (Text.lowercase s, s)) := by
  cases names with
  | nil => rfl
  | cons next names => rfl

theorem mem_placements_map {names : List String} {dir d : Path} {c : Child} :
    (d, c) ∈ placements dir (names.map fun s => (Text.lowercase s, s)) ↔
      ∃ front name rest, names = front ++ name :: rest ∧
        d.segments = dir.segments ++ front.map Text.lowercase ∧ c = .ofSegment name rest := by
  induction names generalizing dir with
  | nil => simp [placements]
  | cons first names ih =>
      rw [placements_cons, List.mem_cons, ih]
      constructor
      · rintro (h | ⟨front, name, rest, rfl, hd, rfl⟩)
        · cases h
          exact ⟨[], first, names, rfl, by simp, rfl⟩
        · exact ⟨first :: front, name, rest, rfl, by simp [hd, Path.child], rfl⟩
      · rintro ⟨front, name, rest, hnames, hd, rfl⟩
        cases front with
        | nil =>
            cases hnames
            left
            rcases d with ⟨segments⟩
            rcases dir with ⟨segments'⟩
            simpa using hd
        | cons head front =>
            cases hnames
            exact .inr ⟨front, name, rest, rfl, by simp [hd, Path.child], rfl⟩

theorem zip_lowercase (names : List String) :
    (names.map Text.lowercase).zip names = names.map fun s => (Text.lowercase s, s) := by
  induction names with
  | nil => rfl
  | cons name names ih => simp [ih]

/-- An entry puts a member into a directory for every way to split its path there. -/
theorem Entry.mem_placements {e : Entry} {d : Path} {c : Child} :
    (d, c) ∈ e.placements ↔
      ∃ front name rest, e.display.segments = front ++ name :: rest ∧
        d.segments = front.map Text.lowercase ∧ c = .ofSegment name rest := by
  rw [placements, e.path_segments, zip_lowercase, mem_placements_map]
  simp [Path.root]

namespace Directory

theorem keyed :
    Ordered.Keyed (fun a b : Child => Text.before a.key b.key) Child.merge Child.key where
  before_iff := fun _ _ => Text.before_iff_lt
  key_merge := fun _ _ => rfl

def childrenAt (dirs : List Directory) (dir : Path) : Option (List Child) :=
  (dirs.find? fun d => d.path = dir).map children

theorem childrenAt_place (dir : Path) (child : Child) (dirs : List Directory) (d : Path) :
    childrenAt (place dir child dirs) d =
      if dir = d then some (insertChild child ((childrenAt dirs d).getD []))
      else childrenAt dirs d := by
  induction dirs with
  | nil => by_cases h : dir = d <;> simp [place, childrenAt, insertChild, Ordered.upsert, h]
  | cons first dirs ih =>
      simp only [childrenAt] at ih ⊢
      rw [place]
      by_cases hfirst : first.path = dir
      · rw [if_pos hfirst]
        by_cases h : dir = d
        · simp [hfirst, h]
        · simp [hfirst, h]
      · rw [if_neg hfirst]
        by_cases hd : first.path = d
        · have hne : ¬ dir = d := fun h => hfirst (hd.trans h.symm)
          simp [hd, hne]
        · simpa [hd] using ih

def placedAt (placed : List (Path × Child)) (d : Path) : List Child :=
  (placed.filter fun p => decide (p.1 = d)).map Prod.snd

theorem mem_placedAt {entries : List Entry} {d : Path} {c : Child} :
    c ∈ placedAt (entries.flatMap Entry.placements) d ↔ ∃ e ∈ entries, ∃ front name rest,
      e.display.segments = front ++ name :: rest ∧
        d.segments = front.map Text.lowercase ∧ c = .ofSegment name rest := by
  simp only [placedAt, List.mem_map, List.mem_filter, List.mem_flatMap, decide_eq_true_eq]
  constructor
  · rintro ⟨⟨dir, child⟩, ⟨⟨e, he, hmem⟩, rfl⟩, rfl⟩
    exact ⟨e, he, Entry.mem_placements.mp hmem⟩
  · rintro ⟨e, he, hsplit⟩
    exact ⟨(d, c), ⟨⟨e, he, Entry.mem_placements.mpr hsplit⟩, rfl⟩, rfl⟩

/-- The members of a directory are those that were placed there, collected by key. -/
theorem childrenAt_foldl (placed : List (Path × Child)) (d : Path) :
    childrenAt (placed.foldl (fun dirs (dir, child) => place dir child dirs) []) d =
      if placedAt placed d = [] then none
      else some (Ordered.collect (fun a b => Text.before a.key b.key) Child.merge
        (placedAt placed d)) := by
  induction placed using List.reverseRecOn with
  | nil => rfl
  | append_singleton placed p ih =>
      rcases p with ⟨dir, child⟩
      rw [List.foldl_concat, childrenAt_place, ih]
      by_cases h : dir = d
      · have hplaced : placedAt (placed ++ [(dir, child)]) d = placedAt placed d ++ [child] := by
          simp [placedAt, h]
        have hsome : placedAt placed d ++ [child] ≠ [] := List.concat_ne_nil _ _
        rw [if_pos h, hplaced, if_neg hsome, Ordered.collect_concat]
        by_cases hempty : placedAt placed d = []
        · rw [if_pos hempty, hempty]
          rfl
        · rw [if_neg hempty]
          rfl
      · have hplaced : placedAt (placed ++ [(dir, child)]) d = placedAt placed d := by
          simp [placedAt, h]
        rw [if_neg h, hplaced]

end Directory

namespace Archive

variable {a : Archive} {d : Path} {k : String}

def placed (a : Archive) (d : Path) : List Child :=
  Directory.placedAt (a.entries.flatMap Entry.placements) d

theorem mem_placed {c : Child} :
    c ∈ a.placed d ↔ ∃ e ∈ a.entries, ∃ front name rest,
      e.display.segments = front ++ name :: rest ∧
        d.segments = front.map Text.lowercase ∧ c = .ofSegment name rest :=
  Directory.mem_placedAt

theorem children?_eq (a : Archive) (d : Path) :
    a.children? d =
      if a.placed d = [] then none
      else some (Ordered.collect (fun a b => Text.before a.key b.key) Child.merge
        (a.placed d)) := by
  rw [children?, a.directories_eq]
  exact Directory.childrenAt_foldl _ d

theorem child?_eq (a : Archive) (d : Path) (k : String) :
    a.child? d k =
      Ordered.mergeAll Child.merge ((a.placed d).filter fun c => decide (c.key = k)) := by
  rw [child?, children?_eq]
  by_cases hempty : a.placed d = []
  · rw [if_pos hempty, hempty]
    rfl
  · rw [if_neg hempty]
    exact Ordered.find?_collect Directory.keyed (a.placed d) k

theorem children_ascending {children : List Child} (h : a.children? d = some children) :
    Ordered.Ascending Child.key children := by
  rw [children?_eq] at h
  split at h
  · cases h
  · cases h
    exact Ordered.collect_ascending Directory.keyed _

theorem path_of_split {e : Entry} {front rest : List String} {name : String}
    (hsplit : e.display.segments = front ++ name :: rest)
    (hd : d.segments = front.map Text.lowercase) :
    e.path.segments = d.segments ++ Text.lowercase name :: rest.map Text.lowercase := by
  rw [e.path_segments, hsplit, hd]
  simp

theorem split_of_path {e : Entry} {rest : List String}
    (h : e.path.segments = d.segments ++ k :: rest) :
    ∃ front name rest', e.display.segments = front ++ name :: rest' ∧
      d.segments = front.map Text.lowercase ∧ Text.lowercase name = k ∧
      rest'.map Text.lowercase = rest := by
  rw [e.path_segments, List.map_eq_append_iff] at h
  obtain ⟨front, back, hsplit, hfront, hback⟩ := h
  obtain ⟨name, rest', rfl, hname, hrest⟩ := List.map_eq_cons_iff.mp hback
  exact ⟨front, name, rest', hsplit, hfront.symm, hname, hrest⟩

theorem exists_placed_file :
    (∃ c ∈ a.placed d, c.key = k ∧ c.isFile = true) ↔ a.Holds (d.child k) := by
  constructor
  · rintro ⟨c, hc, rfl, hfile⟩
    obtain ⟨e, he, front, name, rest, hsplit, hd, rfl⟩ := mem_placed.mp hc
    have hrest : rest = [] := by simpa [Child.ofSegment] using hfile
    subst hrest
    refine ⟨e, he, ?_⟩
    have hpath := path_of_split hsplit hd
    rcases hp : e.path with ⟨segments⟩
    rw [hp] at hpath
    exact congrArg Path.mk hpath
  · rintro ⟨e, he, hpath⟩
    have hsegments : e.path.segments = d.segments ++ k :: [] := by rw [hpath, Path.child]
    obtain ⟨front, name, rest, hsplit, hd, hname, hrest⟩ := split_of_path hsegments
    refine ⟨.ofSegment name rest, mem_placed.mpr ⟨e, he, front, name, rest, hsplit, hd, rfl⟩,
      hname, ?_⟩
    simpa [Child.ofSegment] using hrest

theorem exists_placed_directory :
    (∃ c ∈ a.placed d, c.key = k ∧ c.isDirectory = true) ↔ a.HasBelow (d.child k) := by
  constructor
  · rintro ⟨c, hc, rfl, hdirectory⟩
    obtain ⟨e, he, front, name, rest, hsplit, hd, rfl⟩ := mem_placed.mp hc
    cases rest with
    | nil => simp [Child.ofSegment] at hdirectory
    | cons next rest =>
        refine ⟨e, he, Text.lowercase next, rest.map Text.lowercase, ?_⟩
        rw [path_of_split hsplit hd]
        simp [Path.child, Child.ofSegment]
  · rintro ⟨e, he, next, rest, hpath⟩
    have hsegments : e.path.segments = d.segments ++ k :: next :: rest := by
      rw [hpath, Path.child]
      simp
    obtain ⟨front, name, rest', hsplit, hd, hname, hrest⟩ := split_of_path hsegments
    refine ⟨.ofSegment name rest', mem_placed.mpr ⟨e, he, front, name, rest', hsplit, hd, rfl⟩,
      hname, ?_⟩
    cases rest' with
    | nil => cases hrest
    | cons => rfl

theorem file_or_directory_of_placed {c : Child} (hc : c ∈ a.placed d) :
    c.isFile = true ∨ c.isDirectory = true := by
  obtain ⟨e, he, front, name, rest, hsplit, hd, rfl⟩ := mem_placed.mp hc
  cases rest <;> simp [Child.ofSegment]

theorem exists_placed_iff : (∃ c ∈ a.placed d, c.key = k) ↔ a.Exposes (d.child k) := by
  rw [Exposes, ← exists_placed_file, ← exists_placed_directory]
  constructor
  · rintro ⟨c, hc, hkey⟩
    rcases file_or_directory_of_placed hc with hfile | hdirectory
    · exact .inl ⟨c, hc, hkey, hfile⟩
    · exact .inr ⟨c, hc, hkey, hdirectory⟩
  · rintro (⟨c, hc, hkey, -⟩ | ⟨c, hc, hkey, -⟩)
    · exact ⟨c, hc, hkey⟩
    · exact ⟨c, hc, hkey⟩

/-- A directory has a member under a key if there is a file at or below the member's path. -/
theorem exists_child?_iff : (∃ c, a.child? d k = some c) ↔ a.Exposes (d.child k) := by
  rw [child?_eq, ← exists_placed_iff, ← Option.ne_none_iff_exists', ne_eq,
    Ordered.mergeAll_eq_none_iff, List.filter_eq_nil_iff]
  simp

/-- The flags of a member say what the archive has at its path and below it. -/
theorem child?_spec {c : Child} (h : a.child? d k = some c) :
    c.key = k ∧ (c.isFile = true ↔ a.Holds (d.child k)) ∧
      (c.isDirectory = true ↔ a.HasBelow (d.child k)) := by
  have hkey : c.key = k := by
    rw [child?] at h
    obtain ⟨children, -, hfind⟩ := Option.bind_eq_some_iff.mp h
    simpa using List.find?_some hfind
  rw [child?_eq] at h
  refine ⟨hkey, ?_, ?_⟩
  · rw [Ordered.mergeAll_any Child.isFile (fun _ _ => rfl) h, ← exists_placed_file]
    simp
  · rw [Ordered.mergeAll_any Child.isDirectory (fun _ _ => rfl) h, ← exists_placed_directory]
    simp

/-- That some entry of the archive spells a member of a directory so. -/
def Spells (a : Archive) (d : Path) (name : String) : Prop :=
  ∃ e ∈ a.entries, ∃ front rest, e.display.segments = front ++ name :: rest ∧
    d.segments = front.map Text.lowercase

/-- That the archive shows a member of a directory under this name: the earliest of its
spellings. -/
def Names (a : Archive) (d : Path) (k name : String) : Prop :=
  IsLeast {s | a.Spells d s ∧ Text.lowercase s = k} name

theorem child?_names {c : Child} (h : a.child? d k = some c) : a.Names d k c.name := by
  rw [child?_eq] at h
  obtain ⟨⟨first, hfirst, hname⟩, hleast⟩ :=
    Ordered.mergeAll_least Child.name (fun _ _ => Text.earlier_eq_min _ _) h
  constructor
  · obtain ⟨hplaced, hkey⟩ := List.mem_filter.mp hfirst
    obtain ⟨e, he, front, name, rest, hsplit, hd, rfl⟩ := mem_placed.mp hplaced
    rw [← hname]
    exact ⟨⟨e, he, front, rest, hsplit, hd⟩, of_decide_eq_true hkey⟩
  · rintro name ⟨⟨e, he, front, rest, hsplit, hd⟩, hkey⟩
    refine hleast (.ofSegment name rest) (List.mem_filter.mpr ⟨?_, decide_eq_true hkey⟩)
    exact mem_placed.mpr ⟨e, he, front, name, rest, hsplit, hd, rfl⟩

theorem isDirectory_iff : a.isDirectory d = true ↔ a.HasBelow d := by
  have hplaced : a.isDirectory d = true ↔ a.placed d ≠ [] := by
    rw [isDirectory, children?_eq]
    split <;> simp_all
  rw [hplaced]
  constructor
  · intro hne
    obtain ⟨c, hc⟩ := List.exists_mem_of_ne_nil _ hne
    obtain ⟨e, he, front, name, rest, hsplit, hd, -⟩ := mem_placed.mp hc
    exact ⟨e, he, _, _, path_of_split hsplit hd⟩
  · rintro ⟨e, he, key, rest, hpath⟩
    obtain ⟨front, name, rest', hsplit, hd, -⟩ := split_of_path hpath
    exact List.ne_nil_of_mem (mem_placed.mpr ⟨e, he, front, name, rest', hsplit, hd, rfl⟩)

end Archive

end ArchiveOverlay
