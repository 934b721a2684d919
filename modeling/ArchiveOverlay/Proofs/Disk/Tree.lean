import ArchiveOverlay.Archive.Load
import ArchiveOverlay.Proofs.Disk.Frame
import Mathlib.Data.List.Nodup

namespace ArchiveOverlay.Disk

open HostPath (join)

theorem pathPieces_intercalate {names : List String} (hne : names ≠ [])
    (h : ∀ name ∈ names, '/' ∉ name.toList) : pathPieces ("/".intercalate names) = names := by
  induction names with
  | nil => exact absurd rfl hne
  | cons name rest ih =>
      have hname : pathPieces name = [name] := by
        rw [pathPieces, HostPath.pieces_of_plain]
        · simp
        · rintro c hc rfl
          exact h name (by simp) hc
      cases rest with
      | nil => rw [String.intercalate_singleton, hname]
      | cons next rest =>
          rw [String.intercalate_cons_cons, HostPath.pathPieces_append, hname,
            ih (by simp) fun other hother => h other (by simp [hother])]
          rfl

theorem intercalate_pieces (cs : List Char) :
    "/".intercalate ((HostPath.pieces cs).map String.ofList) = String.ofList cs := by
  induction cs with
  | nil => rfl
  | cons c cs ih =>
      obtain ⟨piece, more, hpieces⟩ := List.exists_cons_of_ne_nil (HostPath.pieces_ne_nil cs)
      rw [hpieces, List.map_cons] at ih
      rw [HostPath.pieces, hpieces]
      split
      next hslash =>
        rw [List.map_cons, List.map_cons, String.intercalate_cons_cons, ih, hslash]
        simp
      next =>
        cases more with
        | nil =>
            rw [List.map_nil, String.intercalate_singleton] at ih
            rw [List.map_singleton, String.intercalate_singleton]
            simpa [← String.toList_inj] using ih
        | cons next more =>
            rw [List.map_cons, String.intercalate_cons_cons] at ih
            rw [List.map_cons, List.map_cons, String.intercalate_cons_cons]
            have hlist := congrArg String.toList ih
            simp only [String.toList_append, String.toList_ofList] at hlist
            rw [← String.toList_inj]
            simp only [String.toList_append, String.toList_ofList, List.cons_append, hlist]

theorem intercalate_pathPieces (path : String) : "/".intercalate (pathPieces path) = path := by
  rw [pathPieces, intercalate_pieces, String.ofList_toList]

section

variable {d : Disk} {root path : String} {place names : Location} {node : Node}

theorem mem_below :
    (names, node) ∈ d.below place ↔ names ≠ [] ∧ (place ++ names, node) ∈ d.nodes := by
  rw [below, List.mem_filterMap]
  constructor
  · rintro ⟨⟨other, node'⟩, hmem, hsome⟩
    dsimp only at hsome
    split at hsome
    next hbelow =>
      rw [Bool.and_eq_true, List.isPrefixOf_iff_prefix, decide_eq_true_eq] at hbelow
      obtain ⟨⟨rest, rfl⟩, hne⟩ := hbelow
      rw [List.drop_left, Option.some.injEq, Prod.mk.injEq] at hsome
      obtain ⟨rfl, rfl⟩ := hsome
      exact ⟨fun hnil => hne (by rw [hnil, List.append_nil]), hmem⟩
    · cases hsome
  · rintro ⟨hne, hmem⟩
    refine ⟨(place ++ names, node), hmem, ?_⟩
    simp [hne]

theorem mem_tree {name : String} : (name, node) ∈ d.tree place ↔
    ∃ names, names ≠ [] ∧ (place ++ names, node) ∈ d.nodes ∧ "/".intercalate names = name := by
  rw [tree, List.mem_mergeSort, List.mem_map]
  constructor
  · rintro ⟨⟨names, node'⟩, hmem, heq⟩
    obtain ⟨rfl, rfl⟩ := Prod.mk.inj heq
    obtain ⟨hne, hmem⟩ := mem_below.mp hmem
    exact ⟨names, hne, hmem, rfl⟩
  · rintro ⟨names, hne, hmem, rfl⟩
    exact ⟨(names, node), mem_below.mpr ⟨hne, hmem⟩, rfl⟩

theorem node?_eq_some_iff (hkeys : (d.nodes.map Prod.fst).Nodup) (hplace : place ≠ []) :
    d.node? place = some node ↔ (place, node) ∈ d.nodes := by
  rw [node?, if_neg hplace]
  generalize d.nodes = nodes at hkeys
  induction nodes with
  | nil => simp
  | cons first nodes ih =>
      rcases first with ⟨key, found⟩
      rw [List.map_cons, List.nodup_cons] at hkeys
      by_cases hkey : place = key
      · subst hkey
        have hother : (place, node) ∉ nodes :=
          fun hmem => hkeys.1 (List.mem_map.mpr ⟨_, hmem, rfl⟩)
        simp [hother, eq_comm]
      · rw [lookup_cons_ne hkey, ih hkeys.2]
        simp [hkey]

/-- In a tree, what is on the way to something is a directory. -/
theorem Proper.directory_of_prefix (h : d.Proper) (hnode : d.node? (place ++ names) ≠ none)
    {front : Location} (hfront : front <+: names) (hne : front ≠ names) :
    d.node? (place ++ front) = some .directory := by
  induction names using List.reverseRecOn with
  | nil => exact absurd (List.prefix_nil.mp hfront) hne
  | append_singleton names name ih =>
      rw [← List.append_assoc] at hnode
      have hparent := h.parent _ _ hnode
      rcases List.prefix_concat_iff.mp hfront with hall | hshorter
      · exact absurd hall hne
      · by_cases hlast : front = names
        · rw [hlast, hparent]
        · exact ih (by rw [hparent]; exact Option.some_ne_none _) hshorter hlast

theorem isAbsolute_of_pieces (h : ∀ piece ∈ pathPieces path, piece ≠ "") :
    HostPath.isAbsolute path = false := by
  rw [HostPath.isAbsolute, decide_eq_false_iff_not]
  intro hslash
  obtain ⟨rest, hrest⟩ := List.head?_eq_some_iff.mp hslash
  exact h "" (by simp [pathPieces, hrest, HostPath.pieces]) rfl

/-- A path behind the path of a directory is followed from that directory on. -/
theorem exists_locate_join (h : d.find root = .ok (place, .directory))
    (hrelative : HostPath.isAbsolute path = false) (hpath : Admissible (join root path)) :
    ∃ links, ∀ followLast,
      d.locate (join root path) followLast =
        d.follow followLast links place (pathPieces path) := by
  obtain ⟨hroot, hreaches⟩ := find_eq_ok_iff.mp h
  have hstart : d.start (join root path) = d.start root := by
    rw [start, start, HostPath.isAbsolute_join hrelative]
  obtain ⟨front, hfront, hjoin⟩ := HostPath.join_cases hroot.ne_empty
  have hreached : Reaches d true maxLinks (d.start root) (pathPieces front) place .directory := by
    rcases hfront with rfl | rfl
    · exact hreaches
    · have hslash := HostPath.pathPieces_append front ""
      rw [String.append_empty] at hslash
      rw [hslash] at hreaches
      exact hreaches.of_append_still (by simp [pathPieces, HostPath.pieces, HostPath.Still])
  obtain ⟨links, hlinks⟩ := hreached.follow_append
  have hsome : pathPieces path ≠ [] := by simp [pathPieces, HostPath.pieces_ne_nil]
  refine ⟨links, fun followLast => ?_⟩
  rw [locate_eq hpath, hstart, hjoin path hrelative, HostPath.pathPieces_append,
    hlinks followLast _ hsome]

/-- What is below a directory is found by the path of the directory with its own path behind it. -/
theorem find_join (hproper : d.Proper) (h : d.find root = .ok (place, .directory))
    (hnames : ∀ piece ∈ pathPieces path, Nameable piece) (hpath : Admissible (join root path))
    (hnode : d.node? (place ++ pathPieces path) = some node)
    (hlink : ∀ target, node ≠ .link target) :
    d.find (join root path) = .ok (place ++ pathPieces path, node) := by
  obtain ⟨links, hlocate⟩ := exists_locate_join h
    (isAbsolute_of_pieces fun piece hpiece => (hnames piece hpiece).ne_empty) hpath
  have hne : pathPieces path ≠ [] := by simp [pathPieces, HostPath.pieces_ne_nil]
  obtain ⟨names, name, hsplit⟩ := (List.eq_nil_or_concat' _).resolve_left hne
  rw [hsplit] at hnames hnode hlocate ⊢
  have hsome : d.node? (place ++ (names ++ [name])) ≠ none := by
    rw [hnode]
    exact Option.some_ne_none _
  have hway : d.Passable place names := by
    intro front _ hfront
    apply hproper.directory_of_prefix hsome (hfront.trans (List.prefix_append _ _))
    rintro rfl
    simpa using hfront.length_le
  have hlink' : ∀ target, d.node? (place ++ (names ++ [name])) ≠ some (.link target) := by
    intro target htarget
    rw [hnode, Option.some.injEq] at htarget
    exact hlink target htarget
  rw [find, hlocate, follow_below hnames hway hlink', hnode]

end

end ArchiveOverlay.Disk

namespace ArchiveOverlay

theorem directoryFiles_of_find {d : Disk} {root : String} {place : Location}
    (h : d.find root = .ok (place, .directory)) :
    directoryFiles d root = filesBelow d root place := by
  obtain ⟨hroot, hreaches⟩ := Disk.find_eq_ok_iff.mp h
  obtain ⟨place', node, hunfollowed⟩ := hreaches.unfollowed
  have hlocate : d.locate root false = .ok ⟨place', some node⟩ := by
    rw [Disk.locate_eq hroot, hunfollowed.follow_eq]
  rw [directoryFiles, hlocate]
  cases node with
  | directory =>
      have hsame := Disk.find_of_locate hlocate
      rw [h, Except.ok.injEq, Prod.mk.injEq] at hsame
      rw [hsame.1]
  | link target => simp only [h]
  | file content =>
      have hfile := Disk.find_eq_ok_iff.mpr ⟨hroot, hunfollowed.followed_file⟩
      simp [h] at hfile

end ArchiveOverlay
