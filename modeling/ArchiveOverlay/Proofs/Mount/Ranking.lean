import ArchiveOverlay.Mount
import Mathlib.Data.List.Nodup
import Mathlib.Data.List.Pairwise

namespace ArchiveOverlay

namespace ArchiveId

theorem named_iff {id : ArchiveId} {name : String} :
    id.named name = true ↔ Text.lowercase id.name = Text.lowercase name := by
  simp [named]

theorem named_self (id : ArchiveId) : id.named id.name = true :=
  named_iff.mpr rfl

theorem named_comm (a b : ArchiveId) : a.named b.name = b.named a.name := by
  rw [Bool.eq_iff_iff, named_iff, named_iff]
  exact eq_comm

theorem named_of_named {a b : ArchiveId} {name : String}
    (ha : a.named name = true) (hb : b.named name = true) : a.named b.name = true := by
  rw [named_iff] at ha hb ⊢
  exact ha.trans hb.symm

end ArchiveId

namespace Mount

theorem outranks_iff {a b : Mount} :
    a.outranks b = true ↔
      b.priority < a.priority ∨ (a.priority = b.priority ∧ b.order < a.order) := by
  simp [outranks]

theorem outranks_trans {a b c : Mount} (hab : a.outranks b = true)
    (hbc : b.outranks c = true) : a.outranks c = true := by
  rw [outranks_iff] at hab hbc ⊢
  omega

theorem outranks_asymm {a b : Mount} (h : a.outranks b = true) : ¬ b.outranks a = true := by
  rw [outranks_iff] at h ⊢
  omega

theorem outranks_of_not_outranks {a b : Mount} (hne : a.order ≠ b.order)
    (h : ¬ a.outranks b = true) : b.outranks a = true := by
  rw [outranks_iff] at h ⊢
  omega

end Mount

namespace MountTable

theorem insertRanked_perm (m : Mount) (mounts : List Mount) :
    (insertRanked m mounts).Perm (m :: mounts) := by
  induction mounts with
  | nil => exact .refl _
  | cons other rest ih =>
      simp only [insertRanked]
      split
      · exact (ih.cons other).trans (.swap m other rest)
      · exact .refl _

/-- Insertion keeps the mounts ranked, if the new one can be told from all others by its order. -/
theorem insertRanked_ranked {m : Mount} {mounts : List Mount}
    (hranked : mounts.Pairwise fun a b => a.outranks b = true)
    (hnew : ∀ other ∈ mounts, other.order ≠ m.order) :
    (insertRanked m mounts).Pairwise fun a b => a.outranks b = true := by
  induction mounts with
  | nil => exact List.pairwise_singleton _ _
  | cons other rest ih =>
      obtain ⟨hother, hrest⟩ := List.pairwise_cons.mp hranked
      simp only [insertRanked]
      split
      next hbefore =>
        refine List.pairwise_cons.mpr ⟨?_, ih hrest fun x hx => hnew x (by simp [hx])⟩
        intro x hx
        rcases List.mem_cons.mp ((insertRanked_perm m rest).mem_iff.mp hx) with rfl | hx
        · exact hbefore
        · exact hother x hx
      next hafter =>
        have hm : m.outranks other = true :=
          Mount.outranks_of_not_outranks (hnew other (by simp)) hafter
        refine List.pairwise_cons.mpr ⟨?_, hranked⟩
        intro x hx
        rcases List.mem_cons.mp hx with rfl | hx
        · exact hm
        · exact Mount.outranks_trans hm (hother x hx)

/-- What holds of every table that was filled and emptied by its own operations. -/
structure Sound (t : MountTable) : Prop where
  ranked : t.mounts.Pairwise fun a b => a.outranks b = true
  orders_nodup : (t.mounts.map Mount.order).Nodup
  handle_eq : ∀ m ∈ t.mounts, m.handle = m.order
  order_lt : ∀ m ∈ t.mounts, m.order < t.nextOrder
  names_apart : t.mounts.Pairwise fun a b => ¬ a.archive.id.named b.archive.id.name = true

theorem sound_empty : empty.Sound where
  ranked := List.Pairwise.nil
  orders_nodup := List.nodup_nil
  handle_eq := by simp [empty]
  order_lt := by simp [empty]
  names_apart := List.Pairwise.nil

def nextMount (t : MountTable) (archive : Archive) (priority : Int) : Mount :=
  ⟨t.nextOrder, archive, priority, t.nextOrder⟩

theorem add_mounts_perm (t : MountTable) (archive : Archive) (priority : Int) :
    (t.add archive priority).mounts.Perm (t.nextMount archive priority :: t.mounts) :=
  insertRanked_perm _ _

theorem mem_add_mounts {t : MountTable} {archive : Archive} {priority : Int} {m : Mount} :
    m ∈ (t.add archive priority).mounts ↔ m = t.nextMount archive priority ∨ m ∈ t.mounts := by
  rw [(t.add_mounts_perm archive priority).mem_iff, List.mem_cons]

theorem mem_remove_mounts {t : MountTable} {handle : Nat} {m : Mount} :
    m ∈ (t.remove handle).mounts ↔ m ∈ t.mounts ∧ m.handle ≠ handle := by
  simp [remove]

theorem find?_eq_none_iff {t : MountTable} {name : String} :
    t.find? name = none ↔ ∀ m ∈ t.mounts, ¬ m.archive.id.named name = true := by
  simp [find?]

theorem not_named_symm {a b : Mount} (h : ¬ a.archive.id.named b.archive.id.name = true) :
    ¬ b.archive.id.named a.archive.id.name = true := by
  rwa [ArchiveId.named_comm]

namespace Sound

variable {t : MountTable}

/-- An archive in use is known by its name. -/
theorem mount_eq (hs : t.Sound) {a b : Mount} (ha : a ∈ t.mounts) (hb : b ∈ t.mounts)
    (hid : a.archive.id = b.archive.id) : a = b := by
  by_contra hne
  have hsymm : Std.Symm fun a b : Mount => ¬ a.archive.id.named b.archive.id.name = true :=
    ⟨fun _ _ => not_named_symm⟩
  have hapart := hs.names_apart.forall ha hb hne
  rw [hid] at hapart
  exact hapart (ArchiveId.named_self _)

theorem add (hs : t.Sound) {archive : Archive} (hfree : t.find? archive.id.name = none)
    (priority : Int) : (t.add archive priority).Sound where
  ranked := by
    apply insertRanked_ranked hs.ranked
    intro other hother
    exact Nat.ne_of_lt (hs.order_lt other hother)
  orders_nodup := by
    rw [((t.add_mounts_perm archive priority).map Mount.order).nodup_iff, List.map_cons,
      List.nodup_cons]
    refine ⟨?_, hs.orders_nodup⟩
    intro hmem
    obtain ⟨m, hm, horder⟩ := List.mem_map.mp hmem
    have hlt := hs.order_lt m hm
    simp only [nextMount] at horder
    omega
  handle_eq := by
    intro m hm
    rcases mem_add_mounts.mp hm with rfl | hm
    · rfl
    · exact hs.handle_eq m hm
  order_lt := by
    intro m hm
    rcases mem_add_mounts.mp hm with rfl | hm
    · exact Nat.lt_succ_self _
    · exact Nat.lt_succ_of_lt (hs.order_lt m hm)
  names_apart := by
    rw [(t.add_mounts_perm archive priority).pairwise_iff not_named_symm, List.pairwise_cons]
    refine ⟨?_, hs.names_apart⟩
    intro m hm
    exact not_named_symm (find?_eq_none_iff.mp hfree m hm)

theorem remove (hs : t.Sound) (handle : Nat) : (t.remove handle).Sound where
  ranked := hs.ranked.sublist List.filter_sublist
  orders_nodup := hs.orders_nodup.sublist (List.filter_sublist.map _)
  handle_eq := fun m hm => hs.handle_eq m (mem_remove_mounts.mp hm).1
  order_lt := fun m hm => hs.order_lt m (mem_remove_mounts.mp hm).1
  names_apart := hs.names_apart.sublist List.filter_sublist

theorem handles_nodup (hs : t.Sound) : (t.mounts.map Mount.handle).Nodup := by
  have heq : t.mounts.map Mount.handle = t.mounts.map Mount.order :=
    List.map_congr_left hs.handle_eq
  rw [heq]
  exact hs.orders_nodup

theorem eq_of_handle_eq (hs : t.Sound) {a b : Mount} (ha : a ∈ t.mounts) (hb : b ∈ t.mounts)
    (h : a.handle = b.handle) : a = b := by
  rw [hs.handle_eq a ha, hs.handle_eq b hb] at h
  exact List.inj_on_of_nodup_map hs.orders_nodup ha hb h

theorem eq_of_named (hs : t.Sound) {a b : Mount} {name : String} (ha : a ∈ t.mounts)
    (hb : b ∈ t.mounts) (hna : a.archive.id.named name = true)
    (hnb : b.archive.id.named name = true) : a = b := by
  by_contra hne
  have : Std.Symm fun a b : Mount => ¬ a.archive.id.named b.archive.id.name = true :=
    ⟨fun _ _ => not_named_symm⟩
  exact hs.names_apart.forall ha hb hne (ArchiveId.named_of_named hna hnb)

end Sound

end MountTable

end ArchiveOverlay
