import ArchiveOverlay.Proofs.Archive.Children
import ArchiveOverlay.Proofs.Overlay.Resolution

namespace ArchiveOverlay

theorem Item.keyed :
    Ordered.Keyed (fun a b : Item => Text.before a.key b.key) Item.merge Item.key where
  before_iff := fun _ _ => Text.before_iff_lt
  key_merge := fun _ _ => rfl

theorem Path.child_ne_root (dir : Path) (k : String) : dir.child k ≠ .root := by
  intro h
  have hsegments := congrArg Path.segments h
  simp [Path.child, Path.root] at hsegments

namespace Overlay

variable {o : Overlay} {dir : Path} {k : String}

def Holds (o : Overlay) (path : Path) : Prop :=
  ∃ a ∈ o.archives, a.Holds path

def Listable (o : Overlay) (dir : Path) : Prop :=
  dir = .root ∨ ∃ a ∈ o.archives, a.HasBelow dir

/-- The rows that the archives give for one key of a directory, at most one each. -/
def rows (o : Overlay) (dir : Path) (k : String) : List Item :=
  o.archives.filterMap fun a => (a.child? dir k).map (Item.ofChild dir)

def members (o : Overlay) (dir : Path) : List Item :=
  Ordered.collect (fun a b => Text.before a.key b.key) Item.merge
    (o.archives.flatMap fun a => ((a.children? dir).getD []).map (Item.ofChild dir))

theorem requireDirectory_cases (o : Overlay) (dir : Path) :
    (o.Listable dir ∧ o.requireDirectory dir = .ok ()) ∨
      (¬ o.Listable dir ∧ o.Holds dir ∧
        o.requireDirectory dir = .error (.notADirectory dir.display)) ∨
      (¬ o.Listable dir ∧ ¬ o.Holds dir ∧
        o.requireDirectory dir = .error (.notFound dir.display)) := by
  have hroot : dir.isRoot = true ↔ dir = .root := by
    rcases dir with ⟨segments⟩
    simp [Path.isRoot, Path.root]
  have hlistable : (dir.isRoot || o.archives.any fun a => a.isDirectory dir) = true ↔
      o.Listable dir := by
    simp [Listable, hroot, Archive.isDirectory_iff]
  have hholds : (o.archives.any fun a => a.contains dir) = true ↔ o.Holds dir := by
    simp [Holds, Archive.contains_iff]
  rw [requireDirectory, ← hlistable, ← hholds]
  split
  next h => exact .inl ⟨h, rfl⟩
  next h =>
    split
    next hfile => exact .inr (.inl ⟨h, hfile, rfl⟩)
    next hfile => exact .inr (.inr ⟨h, hfile, rfl⟩)

theorem list_of_parse_error {raw : String} {fault : PathFault}
    (h : Path.parse raw = .error fault) : o.list raw = .error (.invalidPath raw fault) := by
  simp [list, parsePath, h, Except.mapError, bind, Except.bind]

theorem list_of_parse_ok {raw : String} (h : Path.parse raw = .ok dir) :
    o.list raw = (o.requireDirectory dir).map fun _ => o.members dir := by
  simp only [list, parsePath, h, Except.mapError, bind, Except.bind, listPath]
  cases o.requireDirectory dir <;> rfl

theorem list_cases (o : Overlay) {raw : String} (h : Path.parse raw = .ok dir) :
    (o.Listable dir ∧ o.list raw = .ok (o.members dir)) ∨
      (¬ o.Listable dir ∧ o.Holds dir ∧ o.list raw = .error (.notADirectory dir.display)) ∨
      (¬ o.Listable dir ∧ ¬ o.Holds dir ∧ o.list raw = .error (.notFound dir.display)) := by
  rw [list_of_parse_ok h]
  rcases o.requireDirectory_cases dir with ⟨hl, hr⟩ | ⟨hl, hh, hr⟩ | ⟨hl, hh, hr⟩
  · exact .inl ⟨hl, by rw [hr]; rfl⟩
  · exact .inr (.inl ⟨hl, hh, by rw [hr]; rfl⟩)
  · exact .inr (.inr ⟨hl, hh, by rw [hr]; rfl⟩)

theorem exists_list_iff {raw : String} (h : Path.parse raw = .ok dir) :
    (∃ items, o.list raw = .ok items) ↔ o.Listable dir := by
  rcases o.list_cases h with ⟨hl, hr⟩ | ⟨hl, -, hr⟩ | ⟨hl, -, hr⟩
  · simp [hl, hr]
  · simp [hl, hr]
  · simp [hl, hr]

theorem list_eq_notADirectory_iff {raw : String} (h : Path.parse raw = .ok dir) :
    o.list raw = .error (.notADirectory dir.display) ↔ ¬ o.Listable dir ∧ o.Holds dir := by
  rcases o.list_cases h with ⟨hl, hr⟩ | ⟨hl, hh, hr⟩ | ⟨hl, hh, hr⟩
  · simp [hl, hr]
  · simp [hl, hh, hr]
  · simp [hl, hh, hr]

theorem list_eq_notFound_iff {raw : String} (h : Path.parse raw = .ok dir) :
    o.list raw = .error (.notFound dir.display) ↔ ¬ o.Listable dir ∧ ¬ o.Holds dir := by
  rcases o.list_cases h with ⟨hl, hr⟩ | ⟨hl, hh, hr⟩ | ⟨hl, hh, hr⟩
  · simp [hl, hr]
  · simp [hl, hh, hr]
  · simp [hl, hh, hr]

theorem list_eq_ok {raw : String} {items : List Item} (h : Path.parse raw = .ok dir)
    (hitems : o.list raw = .ok items) : items = o.members dir := by
  rcases o.list_cases h with ⟨-, hr⟩ | ⟨-, -, hr⟩ | ⟨-, -, hr⟩
  · rw [hr] at hitems
    exact (Except.ok.inj hitems).symm
  · rw [hr] at hitems
    cases hitems
  · rw [hr] at hitems
    cases hitems

theorem members_ascending (o : Overlay) (dir : Path) :
    Ordered.Ascending Item.key (o.members dir) :=
  Ordered.collect_ascending Item.keyed _

theorem filter_children (a : Archive) (dir : Path) (k : String) :
    ((((a.children? dir).getD []).map (Item.ofChild dir)).filter fun i => decide (i.key = k)) =
      ((a.child? dir k).map (Item.ofChild dir)).toList := by
  cases hchildren : a.children? dir with
  | none => simp [Archive.child?, hchildren]
  | some children =>
      have hascending := Archive.children_ascending hchildren
      have hfilter := hascending.filter_key k
      rw [Option.getD_some, List.filter_map]
      change ((children.filter fun c => decide (c.key = k)).map (Item.ofChild dir)) = _
      rw [hfilter, Archive.child?, hchildren, Option.bind_some]
      cases children.find? fun c => decide (c.key = k) <;> rfl

/-- The member of a directory under a key is the merge of the rows for the key. -/
theorem find?_members (o : Overlay) (dir : Path) (k : String) :
    (o.members dir).find? (fun i => decide (i.key = k)) =
      Ordered.mergeAll Item.merge (o.rows dir k) := by
  rw [members, Ordered.find?_collect Item.keyed, List.filter_flatMap, rows,
    List.filterMap_eq_flatMap_toList]
  simp only [filter_children]

theorem mem_rows {row : Item} :
    row ∈ o.rows dir k ↔ ∃ a ∈ o.archives, ∃ c, a.child? dir k = some c ∧
      .ofChild dir c = row := by
  simp [rows, List.mem_filterMap]

theorem mergeAll_rows {item : Item} (h : item ∈ o.members dir) :
    Ordered.mergeAll Item.merge (o.rows dir item.key) = some item := by
  rw [← find?_members]
  exact (o.members_ascending dir).mem_iff.mp h

theorem exists_member_iff :
    (∃ item ∈ o.members dir, item.key = k) ↔ ∃ a ∈ o.archives, a.Exposes (dir.child k) := by
  have hfind : (∃ item ∈ o.members dir, item.key = k) ↔ o.rows dir k ≠ [] := by
    rw [← not_iff_not, not_not, ← Ordered.mergeAll_eq_none_iff, ← find?_members,
      List.find?_eq_none]
    simp
  rw [hfind]
  constructor
  · intro hne
    obtain ⟨row, hrow⟩ := List.exists_mem_of_ne_nil _ hne
    obtain ⟨a, ha, c, hc, -⟩ := mem_rows.mp hrow
    exact ⟨a, ha, Archive.exists_child?_iff.mp ⟨c, hc⟩⟩
  · rintro ⟨a, ha, hexposes⟩
    obtain ⟨c, hc⟩ := Archive.exists_child?_iff.mpr hexposes
    exact List.ne_nil_of_mem (mem_rows.mpr ⟨a, ha, c, hc, rfl⟩)

/-- A flag of a member is set if it is set for some archive. -/
theorem member_flag {item : Item} (h : item ∈ o.members dir) {flag : Item → Bool}
    (hflag : ∀ a b, flag (Item.merge a b) = (flag a || flag b)) {P : Archive → Prop}
    (hexposes : ∀ a, P a → a.Exposes (dir.child item.key))
    (hchild : ∀ a c, a.child? dir item.key = some c → (flag (.ofChild dir c) = true ↔ P a)) :
    flag item = true ↔ ∃ a ∈ o.archives, P a := by
  rw [Ordered.mergeAll_any flag hflag (mergeAll_rows h), List.any_eq_true]
  constructor
  · rintro ⟨row, hrow, hset⟩
    obtain ⟨a, ha, c, hc, rfl⟩ := mem_rows.mp hrow
    exact ⟨a, ha, (hchild a c hc).mp hset⟩
  · rintro ⟨a, ha, hP⟩
    obtain ⟨c, hc⟩ := Archive.exists_child?_iff.mpr (hexposes a hP)
    exact ⟨_, mem_rows.mpr ⟨a, ha, c, hc, rfl⟩, (hchild a c hc).mpr hP⟩

theorem member_isFile {item : Item} (h : item ∈ o.members dir) :
    item.isFile = true ↔ o.Holds (dir.child item.key) := by
  apply member_flag h (fun _ _ => rfl)
  · intro a hholds
    exact .inl hholds
  · intro a c hc
    exact (Archive.child?_spec hc).2.1

theorem member_isDirectory {item : Item} (h : item ∈ o.members dir) :
    item.isDirectory = true ↔ o.Listable (dir.child item.key) := by
  have hbelow : item.isDirectory = true ↔
      ∃ a ∈ o.archives, a.HasBelow (dir.child item.key) := by
    apply member_flag h (fun _ _ => rfl)
    · intro a hbelow
      exact .inr hbelow
    · intro a c hc
      exact (Archive.child?_spec hc).2.2
  rw [hbelow, Listable, or_iff_right (dir.child_ne_root _)]

/-- A member is shown as the first archive that exposes it names it. -/
theorem member_first {item : Item} (h : item ∈ o.members dir) :
    item.path = dir.child item.key ∧
      ∃ above a below, o.archives = above ++ a :: below ∧ a.Exposes item.path ∧
        (∀ b ∈ above, ¬ b.Exposes item.path) ∧ a.Names dir item.key item.name := by
  have hkeep : ∀ a b : Item, ((a.merge b).name, (a.merge b).path) = (a.name, a.path) :=
    fun _ _ => rfl
  have hfirst := Ordered.mergeAll_first (fun i : Item => (i.name, i.path)) hkeep
    (o.rows dir item.key)
  rw [mergeAll_rows h, rows, List.head?_filterMap, Option.map_some, eq_comm,
    Option.map_eq_some_iff] at hfirst
  obtain ⟨row, hrow, hfields⟩ := hfirst
  obtain ⟨above, a, below, harchives, ha, habove⟩ := List.findSome?_eq_some_iff.mp hrow
  obtain ⟨c, hc, rfl⟩ := Option.map_eq_some_iff.mp ha
  obtain ⟨hname, hpath⟩ := Prod.mk.inj hfields
  have hitem : item.path = dir.child item.key := by
    rw [← hpath, Item.ofChild, (Archive.child?_spec hc).1]
  refine ⟨hitem, above, a, below, harchives, ?_, ?_, ?_⟩
  · rw [hitem]
    exact Archive.exists_child?_iff.mp ⟨c, hc⟩
  · intro b hb hexposes
    rw [hitem] at hexposes
    obtain ⟨other, hother⟩ := Archive.exists_child?_iff.mpr hexposes
    have hnone := habove b hb
    rw [hother] at hnone
    cases hnone
  · rw [← hname]
    exact Archive.child?_names hc

end Overlay

namespace MountRun

theorem exists_archive_iff (requests : List MountRequest) (P : Archive → Prop) :
    (∃ a ∈ (of requests).table.overlay.archives, P a) ↔
      ∃ m, InUse (of requests).history m ∧ P m.archive := by
  obtain ⟨records, harchives, hmem, -⟩ := overlay_archives requests
  rw [harchives]
  constructor
  · rintro ⟨a, ha, hP⟩
    obtain ⟨m, hm, rfl⟩ := List.mem_map.mp ha
    exact ⟨m, (hmem m).mp hm, hP⟩
  · rintro ⟨m, hm, hP⟩
    exact ⟨m.archive, List.mem_map_of_mem ((hmem m).mpr hm), hP⟩

/-- The first archive of the overlay with a property is the highest ranked of those in use with
it. -/
theorem exists_highest {requests : List MountRequest} {P : Archive → Prop}
    {above below : List Archive} {a : Archive}
    (h : (of requests).table.overlay.archives = above ++ a :: below)
    (habove : ∀ b ∈ above, ¬ P b) :
    ∃ m, InUse (of requests).history m ∧ m.archive = a ∧
      ∀ other, InUse (of requests).history other → P other.archive →
        other = m ∨ m.Outranks other := by
  obtain ⟨records, harchives, hmem, hranked, -⟩ := overlay_archives requests
  rw [harchives, List.map_eq_append_iff] at h
  obtain ⟨front, back, rfl, rfl, hback⟩ := h
  obtain ⟨m, rest, rfl, rfl, -⟩ := List.map_eq_cons_iff.mp hback
  refine ⟨m, (hmem m).mp (by simp), rfl, ?_⟩
  intro other hother hP
  rcases List.mem_append.mp ((hmem other).mpr hother) with hfront | hrest
  · exact absurd hP (habove _ (List.mem_map_of_mem hfront))
  · rcases List.mem_cons.mp hrest with heq | hrest
    · exact .inl heq
    · have hback := (List.pairwise_append.mp hranked).2.1
      exact .inr ((List.pairwise_cons.mp hback).1 other hrest)

end MountRun

/-- After every run, a path can be listed if it is the root or an archive in use has a file below
it. Its members are what the archives in use have there, each shown as the highest ranked of them
names it. -/
theorem list_run (requests : List MountRequest) (raw : String) :
    let o := (MountRun.of requests).table.overlay
    let used := InUse (MountRun.of requests).history
    match Path.parse raw with
    | .error fault => o.list raw = .error (.invalidPath raw fault)
    | .ok dir =>
      let listable := dir = .root ∨ ∃ m, used m ∧ m.archive.HasBelow dir
      let held := ∃ m, used m ∧ m.archive.Holds dir
      ((∃ items, o.list raw = .ok items) ↔ listable) ∧
      (o.list raw = .error (.notADirectory dir.display) ↔ ¬ listable ∧ held) ∧
      (o.list raw = .error (.notFound dir.display) ↔ ¬ listable ∧ ¬ held) ∧
      ∀ items, o.list raw = .ok items →
        items.Pairwise (fun a b => a.key < b.key) ∧
        (∀ k, (∃ item ∈ items, item.key = k) ↔
          ∃ m, used m ∧ m.archive.Exposes (dir.child k)) ∧
        ∀ item ∈ items,
          item.path = dir.child item.key ∧
          (item.isFile = true ↔ ∃ r, o.resolve item.path.text = .ok r) ∧
          (item.isDirectory = true ↔ ∃ below, o.list item.path.text = .ok below) ∧
          ∃ m, used m ∧ m.archive.Exposes item.path ∧
            (∀ other, used other → other.archive.Exposes item.path →
              other = m ∨ m.Outranks other) ∧
            m.archive.Names dir item.key item.name := by
  intro o used
  cases hparse : Path.parse raw with
  | error fault => exact Overlay.list_of_parse_error hparse
  | ok dir =>
      dsimp -zeta only
      intro listable held
      have hlistable : o.Listable dir ↔ listable :=
        or_congr_right (MountRun.exists_archive_iff requests fun a => a.HasBelow dir)
      have hheld : o.Holds dir ↔ held :=
        MountRun.exists_archive_iff requests fun a => a.Holds dir
      rw [← hlistable, ← hheld]
      refine ⟨Overlay.exists_list_iff hparse, Overlay.list_eq_notADirectory_iff hparse,
        Overlay.list_eq_notFound_iff hparse, ?_⟩
      intro items hitems
      have hmembers := Overlay.list_eq_ok hparse hitems
      subst hmembers
      refine ⟨o.members_ascending dir, ?_, ?_⟩
      · intro k
        rw [Overlay.exists_member_iff]
        exact MountRun.exists_archive_iff requests fun a => a.Exposes (dir.child k)
      · intro item hitem
        obtain ⟨hpath, above, a, below, harchives, hexposes, habove, hnames⟩ :=
          Overlay.member_first hitem
        -- Archives expose canonical paths only, and the text of such a path reads back as the
        -- path.
        have htext : Path.parse item.path.text = .ok item.path :=
          Path.parse_text hexposes.canonical
        obtain ⟨m, hm, rfl, hhighest⟩ := MountRun.exists_highest harchives habove
        refine ⟨hpath, ?_, ?_, m, hm, hexposes, hhighest, hnames⟩
        · rw [Overlay.member_isFile hitem, Overlay.exists_resolve_iff htext, hpath]
          rfl
        · rw [Overlay.member_isDirectory hitem, Overlay.exists_list_iff htext, hpath]

end ArchiveOverlay
