import ArchiveOverlay.Proofs.Archive.Exchange
import ArchiveOverlay.Proofs.Overlay.Comparison
import ArchiveOverlay.Proofs.Overlay.Conflicts

namespace ArchiveOverlay

open Relator

/-- That two questions are answered alike, or refused with the same complaint. -/
inductive AnsweredAlike {α : Type} (R : α → α → Prop) :
    Except Error α → Except Error α → Prop where
  | answer {x y : α} (h : R x y) : AnsweredAlike R (.ok x) (.ok y)
  | refusal (e : Error) : AnsweredAlike R (.error e) (.error e)

namespace Overlay

/-- That two overlays show the same files, each with what it reads from its own disk. -/
structure Agrees (d d' : Disk) (o o' : Overlay) : Prop where
  resolve : ∀ raw, AnsweredAlike (Resolved.Agrees d d') (o.resolve raw) (o'.resolve raw)
  holds : ∀ raw, o.holds raw = o'.holds raw
  list : ∀ raw, o.list raw = o'.list raw
  walk : ∀ raw, AnsweredAlike (List.Forall₂ (Resolved.Agrees d d')) (o.walk raw) (o'.walk raw)
  conflicts : List.Forall₂ (Resolved.Agrees d d') o.conflicts o'.conflicts
  summary : summarize o.conflicts = summarize o'.conflicts

section

variable {d d' : Disk} {o o' : Overlay}
  (h : List.Forall₂ (Archive.Alike d d') o.archives o'.archives)

include h

theorem map_eq_of_alike {β : Type} {f : Archive → β} (hf : ∀ a b, a.SameFiles b → f a = f b) :
    o.archives.map f = o'.archives.map f :=
  map_eq_map_of_forall₂ (h.imp fun a b halike => hf a b halike.files)

theorem any_eq_of_alike {p : Archive → Bool} (hp : ∀ a b, a.SameFiles b → p a = p b) :
    o.archives.any p = o'.archives.any p := by
  have hflags := congrArg (fun flags => flags.any id) (map_eq_of_alike h hp)
  simpa [List.any_map] using hflags

/-- The archives with a file at a path, one by one. -/
theorem holders_alike (path : Path) :
    List.Forall₂ (fun x y : Archive × Entry => x.1.id = y.1.id ∧ x.2.facts = y.2.facts ∧
        x.2.ReadsAlike (x.1.source d x.2.handle) (y.1.source d' y.2.handle))
      (o.holders path) (o'.holders path) := by
  refine List.rel_filterMap ?_ h
  intro a b halike
  dsimp only
  have hfacts := halike.files.find? path
  cases ha : a.find? path with
  | none =>
      rw [ha, Option.map_none, eq_comm, Option.map_eq_none_iff] at hfacts
      rw [hfacts]
      exact .none
  | some e =>
      rw [ha, Option.map_some, eq_comm] at hfacts
      obtain ⟨f, hf, hsame⟩ := Option.map_eq_some_iff.mp hfacts
      rw [hf]
      exact .some ⟨halike.id, hsame.symm, halike.reads e (Archive.find?_some ha).1 f
        (Archive.find?_some hf).1 hsame.symm⟩

theorem resolve?_agrees (path : Path) :
    Option.Rel (Resolved.Agrees d d') (o.resolve? path) (o'.resolve? path) := by
  have hholders := holders_alike h path
  rw [resolve?, resolve?]
  generalize o.holders path = holders at hholders
  generalize o'.holders path = holders' at hholders
  cases hholders with
  | nil => exact .none
  | @cons x y others others' hfirst hothers =>
      obtain ⟨hid, hfacts, hreads⟩ := hfirst
      have hshadowed : others.map (fun x => x.1.id) = others'.map fun y => y.1.id :=
        map_eq_map_of_forall₂ (hothers.imp fun _ _ hother => hother.1)
      exact .some (Resolved.agrees_of_reads rfl hid hfacts hshadowed hreads)

theorem resolve_agrees (raw : String) :
    AnsweredAlike (Resolved.Agrees d d') (o.resolve raw) (o'.resolve raw) := by
  cases hparse : Path.parse raw with
  | error fault =>
      rw [resolve_of_parse_error hparse, resolve_of_parse_error hparse]
      exact .refusal _
  | ok path =>
      have hagrees := resolve?_agrees h path
      rw [resolve_of_parse_ok hparse, resolve_of_parse_ok hparse]
      generalize o.resolve? path = found at hagrees
      generalize o'.resolve? path = found' at hagrees
      cases hagrees with
      | none => exact .refusal _
      | some hagrees => exact .answer hagrees

theorem holds_eq_of_alike (raw : String) : o.holds raw = o'.holds raw := by
  rw [holds, holds]
  cases Path.parse raw with
  | error fault => rfl
  | ok path => exact any_eq_of_alike h fun a b hfiles => hfiles.contains path

theorem requireDirectory_eq_of_alike (dir : Path) :
    o.requireDirectory dir = o'.requireDirectory dir := by
  rw [requireDirectory, requireDirectory,
    any_eq_of_alike h fun a b hfiles => Archive.isDirectory_congr (hfiles.children? dir),
    any_eq_of_alike h fun a b hfiles => hfiles.contains dir]

theorem members_eq_of_alike (dir : Path) : o.members dir = o'.members dir := by
  rw [members, members, List.flatMap_def, List.flatMap_def, map_eq_of_alike h]
  intro a b hfiles
  rw [hfiles.children? dir]

theorem list_eq_of_alike (raw : String) : o.list raw = o'.list raw := by
  cases hparse : Path.parse raw with
  | error fault => rw [list_of_parse_error hparse, list_of_parse_error hparse]
  | ok dir =>
      rw [list_of_parse_ok hparse, list_of_parse_ok hparse, requireDirectory_eq_of_alike h,
        members_eq_of_alike h]

theorem paths_eq_of_alike : o.paths = o'.paths := by
  have hholds : ∀ (o : Overlay) (path : Path),
      o.Holds path ↔ (o.archives.any fun a => a.contains path) = true := by
    intro o path
    simp [Holds, Archive.contains_iff]
  apply o.paths_ascending.eq_of_mem_iff o'.paths_ascending
  intro path
  rw [mem_paths, mem_paths, hholds, hholds,
    any_eq_of_alike h fun a b hfiles => hfiles.contains path]

theorem allBelow_agrees (dir : Path) :
    List.Forall₂ (Resolved.Agrees d d') (o.allBelow dir) (o'.allBelow dir) := by
  rw [allBelow, allBelow, paths_eq_of_alike h]
  refine List.rel_filterMap ?_ (List.forall₂_eq_eq_eq ▸ rfl)
  rintro path _ rfl
  exact resolve?_agrees h path

theorem walk_agrees (raw : String) :
    AnsweredAlike (List.Forall₂ (Resolved.Agrees d d')) (o.walk raw) (o'.walk raw) := by
  cases hparse : Path.parse raw with
  | error fault =>
      rw [walk_of_parse_error hparse, walk_of_parse_error hparse]
      exact .refusal _
  | ok dir =>
      rw [walk_of_parse_ok hparse, walk_of_parse_ok hparse, requireDirectory_eq_of_alike h]
      cases o'.requireDirectory dir with
      | error e => exact .refusal e
      | ok _ => exact .answer (allBelow_agrees h dir)

theorem conflicts_agree : List.Forall₂ (Resolved.Agrees d d') o.conflicts o'.conflicts := by
  rw [conflicts_eq_filter, conflicts_eq_filter]
  refine List.rel_filter ?_ (allBelow_agrees h .root)
  intro r r' hagrees
  show (!r.shadowed.isEmpty) = true ↔ (!r'.shadowed.isEmpty) = true
  rw [hagrees.shadowed]

end

theorem summarize_eq {d d' : Disk} {conflicts conflicts' : List Resolved}
    (h : List.Forall₂ (Resolved.Agrees d d') conflicts conflicts') :
    summarize conflicts = summarize conflicts' := by
  have hrows : conflicts.map
      (fun r => r.shadowed.map fun id => (⟨r.winner, id, 1⟩ : ConflictCount)) =
        conflicts'.map fun r => r.shadowed.map fun id => ⟨r.winner, id, 1⟩ := by
    refine map_eq_map_of_forall₂ (h.imp fun r r' hagrees => ?_)
    rw [hagrees.shadowed, hagrees.winner]
  rw [summarize, summarize, List.flatMap_def, List.flatMap_def, hrows]

theorem agrees_of_alike {d d' : Disk} {o o' : Overlay}
    (h : List.Forall₂ (Archive.Alike d d') o.archives o'.archives) : Agrees d d' o o' where
  resolve := resolve_agrees h
  holds := holds_eq_of_alike h
  list := list_eq_of_alike h
  walk := walk_agrees h
  conflicts := conflicts_agree h
  summary := summarize_eq (conflicts_agree h)

end Overlay

section Mounting

variable {d d' : Disk}

/-- The same mount, but perhaps with another archive in it. -/
structure Mount.Alike (d d' : Disk) (m m' : Mount) : Prop where
  handle : m.handle = m'.handle
  priority : m.priority = m'.priority
  order : m.order = m'.order
  archive : Archive.Alike d d' m.archive m'.archive

/-- The same request, but perhaps for another archive. -/
inductive MountRequest.Alike (d d' : Disk) : MountRequest → MountRequest → Prop where
  | mount {a b : Archive} (h : Archive.Alike d d' a b) (priority : Int) :
      Alike d d' (.mount a priority) (.mount b priority)
  | unmount (handle : Nat) : Alike d d' (.unmount handle) (.unmount handle)
  | unmountNamed (name : String) : Alike d d' (.unmountNamed name) (.unmountNamed name)

namespace MountTable

/-- The same table, but perhaps with other archives in it. -/
structure Alike (d d' : Disk) (t t' : MountTable) : Prop where
  mounts : List.Forall₂ (Mount.Alike d d') t.mounts t'.mounts
  next : t.nextOrder = t'.nextOrder

variable {t t' : MountTable}

theorem Alike.find?_isSome (h : Alike d d' t t') (name : String) :
    (t.find? name).isSome = (t'.find? name).isSome := by
  have hnames : t.mounts.map (fun m => m.archive.id.named name) =
      t'.mounts.map fun m => m.archive.id.named name := by
    refine map_eq_map_of_forall₂ (h.mounts.imp fun m m' hm => ?_)
    rw [hm.archive.id]
  have hany := congrArg (fun flags => flags.any id) hnames
  rw [find?, List.isSome_find?, find?, List.isSome_find?]
  simpa [List.any_map] using hany

theorem insertRanked_alike {m m' : Mount} (hm : Mount.Alike d d' m m')
    {mounts mounts' : List Mount} (h : List.Forall₂ (Mount.Alike d d') mounts mounts') :
    List.Forall₂ (Mount.Alike d d') (insertRanked m mounts) (insertRanked m' mounts') := by
  induction h with
  | nil => exact .cons hm .nil
  | @cons other other' rest rest' hother hrest ih =>
      have houtranks : other.outranks m = other'.outranks m' := by
        rw [Mount.outranks, hother.priority, hother.order, hm.priority, hm.order, Mount.outranks]
      rw [insertRanked, insertRanked, houtranks]
      split
      · exact .cons hother ih
      · exact .cons hm (.cons hother hrest)

/-- What a request does to a table does not depend on where the archives keep their contents. -/
theorem Alike.after (h : Alike d d' t t') (hs : t.Sound) (hs' : t'.Sound)
    {request request' : MountRequest} (hrequest : request.Alike d d' request') :
    Alike d d' (t.after request) (t'.after request') := by
  cases hrequest with
  | @mount a b hab priority =>
      rw [after_mount, after_mount, hab.id, h.find?_isSome]
      split
      · exact h
      · have hnew : Mount.Alike d d' (t.nextMount a priority) (t'.nextMount b priority) :=
          ⟨h.next, rfl, h.next, hab⟩
        exact ⟨insertRanked_alike hnew h.mounts, congrArg (· + 1) h.next⟩
  | unmount handle =>
      refine ⟨?_, ?_⟩
      · rw [after_unmount_mounts, after_unmount_mounts]
        refine List.rel_filter ?_ h.mounts
        intro m m' hm
        show decide (m.handle ≠ handle) = true ↔ decide (m'.handle ≠ handle) = true
        rw [hm.handle]
      · rw [after_nextOrder_of_unmount, after_nextOrder_of_unmount, h.next]
  | unmountNamed name =>
      refine ⟨?_, ?_⟩
      · rw [hs.after_unmountNamed_mounts, hs'.after_unmountNamed_mounts]
        refine List.rel_filter ?_ h.mounts
        intro m m' hm
        show (!m.archive.id.named name) = true ↔ (!m'.archive.id.named name) = true
        rw [hm.archive.id]
      · rw [hs.after_nextOrder_of_unmountNamed, hs'.after_nextOrder_of_unmountNamed, h.next]

theorem Alike.foldl_after (h : Alike d d' t t') (hs : t.Sound) (hs' : t'.Sound)
    {requests requests' : List MountRequest}
    (hrequests : List.Forall₂ (MountRequest.Alike d d') requests requests') :
    Alike d d' (requests.foldl MountTable.after t) (requests'.foldl MountTable.after t') := by
  induction hrequests generalizing t t' with
  | nil => exact h
  | @cons request request' _ _ hrequest _ ih =>
      exact ih (h.after hs hs' hrequest) (sound_after hs request) (sound_after hs' request')

theorem alike_run {requests requests' : List MountRequest}
    (h : List.Forall₂ (MountRequest.Alike d d') requests requests') :
    Alike d d' (MountRun.of requests).table (MountRun.of requests').table := by
  have hempty : Alike d d' empty empty := ⟨.nil, rfl⟩
  rw [MountRun.table_of, MountRun.table_of]
  exact hempty.foldl_after sound_empty sound_empty h

theorem Alike.overlay_agrees (h : Alike d d' t t') : Overlay.Agrees d d' t.overlay t'.overlay := by
  apply Overlay.agrees_of_alike
  rw [overlay, overlay, List.forall₂_map_left_iff, List.forall₂_map_right_iff]
  exact h.mounts.imp fun _ _ hm => hm.archive

end MountTable

theorem MountRequest.alike_of_unchanged {request : MountRequest}
    (h : ∀ a priority, request = .mount a priority → a.Unchanged d d') :
    request.Alike d d' request := by
  cases request with
  | mount a priority => exact .mount (Archive.alike_of_unchanged (h a priority rfl)) priority
  | unmount handle => exact .unmount handle
  | unmountNamed name => exact .unmountNamed name

/-- An archive exchanged for one like it, whatever happens to the table before and after. -/
theorem exchange_agrees {a b : Archive} (h : Archive.Alike d d' a b) (priority : Int)
    (before after : List MountRequest)
    (hothers : ∀ other q, .mount other q ∈ before ++ after → other.Unchanged d d') :
    Overlay.Agrees d d' (MountRun.of (before ++ .mount a priority :: after)).table.overlay
      (MountRun.of (before ++ .mount b priority :: after)).table.overlay := by
  have hsame : ∀ requests : List MountRequest, (∀ request ∈ requests, request ∈ before ++ after) →
      List.Forall₂ (MountRequest.Alike d d') requests requests := by
    intro requests hsubset
    rw [List.forall₂_same]
    intro request hrequest
    apply MountRequest.alike_of_unchanged
    rintro other q rfl
    exact hothers other q (hsubset _ hrequest)
  apply MountTable.Alike.overlay_agrees
  apply MountTable.alike_run
  apply List.rel_append
  · exact hsame before fun request hrequest => by simp [hrequest]
  · exact .cons (.mount h priority) (hsame after fun request hrequest => by simp [hrequest])

end Mounting

end ArchiveOverlay
