import ArchiveOverlay.Archive.Memory
import ArchiveOverlay.Conflict
import ArchiveOverlay.Proofs.Mount.Run

/-!
Two runs compared. What the overlay shows depends on the ranking of the archives alone, so an
archive that was mounted and taken out again leaves no trace, and the order of mounts matters only
among archives of equal priority.
-/

namespace ArchiveOverlay

/-- The archives in use with their priorities, the highest rank first. -/
def MountTable.ranking (t : MountTable) : List (Archive × Int) :=
  t.mounts.map fun m => (m.archive, m.priority)

/-- That two overlays give the same answer to every question. -/
structure Overlay.SameAnswers (o o' : Overlay) : Prop where
  resolve : ∀ raw, o.resolve raw = o'.resolve raw
  holds : ∀ raw, o.holds raw = o'.holds raw
  list : ∀ raw, o.list raw = o'.list raw
  walk : ∀ raw, o.walk raw = o'.walk raw
  conflicts : o.conflicts = o'.conflicts
  summary : summarize o.conflicts = summarize o'.conflicts

theorem MountTable.sameAnswers {t t' : MountTable} (h : t.ranking = t'.ranking) :
    t.overlay.SameAnswers t'.overlay := by
  have harchives : ∀ t : MountTable, t.overlay = ⟨t.ranking.map Prod.fst⟩ := by
    intro t
    rw [overlay, ranking, List.map_map]
    rfl
  rw [harchives t, harchives t', h]
  constructor <;> intros <;> rfl

namespace MountTable

variable {t t' : MountTable}

theorem sound_after (hs : t.Sound) (request : MountRequest) : (t.after request).Sound :=
  MountRun.sound_step (r := ⟨t, []⟩) hs request

theorem sound_foldl_after (hs : t.Sound) (requests : List MountRequest) :
    (requests.foldl after t).Sound := by
  induction requests generalizing t with
  | nil => exact hs
  | cons request requests ih => exact ih (sound_after hs request)

theorem after_mount (archive : Archive) (priority : Int) :
    t.after (.mount archive priority) =
      if (t.find? archive.id.name).isSome then t else t.add archive priority := by
  split
  next htaken => rw [after, perform_mount_of_taken htaken]
  next hfree =>
    have hnone : t.find? archive.id.name = none := by simpa using hfree
    rw [after, perform_mount_of_free hnone]

/-- Taking out by handle filters the table, also where nothing has the handle. -/
theorem after_unmount_mounts (handle : Nat) :
    (t.after (.unmount handle)).mounts = t.mounts.filter fun m => m.handle ≠ handle := by
  cases hget : t.get? handle with
  | none =>
      rw [after, perform_unmount_of_unknown hget, eq_comm, List.filter_eq_self]
      simpa [get?] using hget
  | some m =>
      rw [after, perform_unmount_of_get? hget]
      rfl

/-- So does taking out by name, since a name is never ambiguous. -/
theorem Sound.after_unmountNamed_mounts (hs : t.Sound) (name : String) :
    (t.after (.unmountNamed name)).mounts =
      t.mounts.filter fun m => !m.archive.id.named name := by
  cases hfind : t.find? name with
  | none =>
      rw [after, perform_unmountNamed_of_unknown hfind, eq_comm, List.filter_eq_self]
      simpa using find?_eq_none_iff.mp hfind
  | some m =>
      obtain ⟨hm, hname⟩ := mem_of_find? hfind
      rw [after, hs.perform_unmountNamed hfind]
      change (t.mounts.filter fun other => other.handle ≠ m.handle) = _
      apply List.filter_congr
      intro other hother
      rw [Bool.eq_iff_iff, decide_eq_true_eq, Bool.not_eq_true']
      constructor
      · intro hne
        rw [Bool.eq_false_iff]
        intro hnamed
        exact hne (congrArg Mount.handle (hs.eq_of_named hother hm hnamed hname))
      · intro hnamed heq
        rw [hs.eq_of_handle_eq hother hm heq, hname] at hnamed
        cases hnamed

theorem after_nextOrder_of_unmount (handle : Nat) :
    (t.after (.unmount handle)).nextOrder = t.nextOrder := by
  cases hget : t.get? handle with
  | none => rw [after, perform_unmount_of_unknown hget]
  | some m =>
      rw [after, perform_unmount_of_get? hget]
      rfl

theorem Sound.after_nextOrder_of_unmountNamed (hs : t.Sound) (name : String) :
    (t.after (.unmountNamed name)).nextOrder = t.nextOrder := by
  cases hfind : t.find? name with
  | none => rw [after, perform_unmountNamed_of_unknown hfind]
  | some m =>
      rw [after, hs.perform_unmountNamed hfind]
      rfl

theorem filter_insertRanked {p : Mount → Bool} {m : Mount} (h : p m = false)
    (mounts : List Mount) :
    (insertRanked m mounts).filter p = mounts.filter p := by
  induction mounts with
  | nil => simp [insertRanked, h]
  | cons other rest ih =>
      rw [insertRanked]
      split
      · rw [List.filter_cons, List.filter_cons, ih]
      · rw [List.filter_cons_of_neg (by simp [h])]

end MountTable

theorem MountRun.table_of (requests : List MountRequest) :
    (of requests).table = requests.foldl MountTable.after .empty := by
  induction requests using List.reverseRecOn with
  | nil => rfl
  | append_singleton requests request ih =>
      rw [of_concat, List.foldl_concat, ← ih]
      rfl

theorem MountRun.table_of_append (requests more : List MountRequest) :
    (of (requests ++ more)).table = more.foldl MountTable.after (of requests).table := by
  rw [table_of, table_of, List.foldl_append]

section Isolation

/-- A number of a mount as it would be, had the mount with the number `gone` never taken place. -/
def lowered (gone n : Nat) : Nat :=
  if gone < n then n - 1 else n

theorem lowered_lt_iff {gone a b : Nat} (ha : a ≠ gone) (hb : b ≠ gone) :
    lowered gone a < lowered gone b ↔ a < b := by
  unfold lowered
  split <;> split <;> omega

theorem lowered_inj {gone a b : Nat} (ha : a ≠ gone) (hb : b ≠ gone) :
    lowered gone a = lowered gone b ↔ a = b := by
  unfold lowered
  split <;> split <;> omega

def Mount.lowered (gone : Nat) (m : Mount) : Mount :=
  { m with
    handle := ArchiveOverlay.lowered gone m.handle
    order := ArchiveOverlay.lowered gone m.order }

def MountRequest.lowered (gone : Nat) : MountRequest → MountRequest
  | .unmount handle => .unmount (ArchiveOverlay.lowered gone handle)
  | request => request

/-- That a request uses the handle of a mount or a name of its archive. -/
def MountRequest.Uses (handle : Nat) (id : ArchiveId) : MountRequest → Prop
  | .mount archive _ => id.named archive.id.name = true
  | .unmount other => other = handle
  | .unmountNamed name => id.named name = true

/-- That a table is another one without a mount, with all later numbers lowered. -/
structure MountTable.Without (t t' : MountTable) (gone : Nat) (archive : Archive) : Prop where
  mounts : t'.mounts = (t.mounts.filter fun m => m.handle ≠ gone).map (Mount.lowered gone)
  nextOrder : t.nextOrder = t'.nextOrder + 1
  issued : gone ≤ t'.nextOrder
  archive : ∀ m ∈ t.mounts, m.handle = gone → m.archive = archive

namespace MountTable.Without

variable {t t' : MountTable} {gone : Nat} {archive : Archive}

theorem filter (h : t.Without t' gone archive) {p q : Mount → Bool}
    (hpq : ∀ m ∈ t.mounts, m.handle ≠ gone → q (m.lowered gone) = p m) :
    t'.mounts.filter q =
      ((t.mounts.filter p).filter fun m => m.handle ≠ gone).map (Mount.lowered gone) := by
  have hkept : (t.mounts.filter fun m => m.handle ≠ gone).filter (q ∘ Mount.lowered gone) =
      (t.mounts.filter fun m => m.handle ≠ gone).filter p := by
    apply List.filter_congr
    intro m hm
    obtain ⟨hmem, hne⟩ := List.mem_filter.mp hm
    exact hpq m hmem (by simpa using hne)
  rw [h.mounts, List.filter_map, hkept, List.filter_comm]

/-- Where the mount that differs does not matter, the same mounts are found. -/
theorem find?_isSome (h : t.Without t' gone archive) {name : String}
    (hname : ¬ archive.id.named name = true) :
    (t'.find? name).isSome = (t.find? name).isSome := by
  have hnone : t'.find? name = none ↔ t.find? name = none := by
    rw [find?_eq_none_iff, find?_eq_none_iff, h.mounts]
    constructor
    · intro hother m hm
      by_cases hgone : m.handle = gone
      · rwa [h.archive m hm hgone]
      · exact hother (m.lowered gone)
          (List.mem_map_of_mem (List.mem_filter.mpr ⟨hm, by simpa using hgone⟩))
    · intro hother _ hlowered
      obtain ⟨m, hm, rfl⟩ := List.mem_map.mp hlowered
      exact hother m (List.mem_filter.mp hm).1
  rw [Bool.eq_iff_iff, ← not_iff_not]
  simpa using hnone

theorem outranks_lowered {a b : Mount} (ha : a.order ≠ gone) (hb : b.order ≠ gone) :
    (a.lowered gone).outranks (b.lowered gone) = true ↔ a.outranks b = true := by
  rw [Mount.outranks_iff, Mount.outranks_iff]
  simp only [Mount.lowered, lowered_lt_iff hb ha]

theorem add (h : t.Without t' gone archive) (hs : t.Sound) {new : Archive}
    (hfree : t.find? new.id.name = none) (hfree' : t'.find? new.id.name = none) (hs' : t'.Sound)
    (priority : Int) : (t.add new priority).Without (t'.add new priority) gone archive where
  mounts := by
    have hsound := hs.add hfree priority
    have hissued := h.issued
    have hnext := h.nextOrder
    -- Both rows are ranked and hold the same mounts.
    refine @List.Perm.eq_of_pairwise _ (fun a b => a.outranks b = true) _ _ ?_
      (hs'.add hfree' priority).ranked ?_ ?_
    · intro a b _ _ hab hba
      rw [Mount.outranks_iff] at hab hba
      omega
    · rw [List.pairwise_map]
      refine (hsound.ranked.sublist List.filter_sublist).imp_of_mem ?_
      intro a b ha hb hab
      have horder : ∀ m ∈ (t.add new priority).mounts.filter (fun m => m.handle ≠ gone),
          m.order ≠ gone := by
        intro m hm
        obtain ⟨hmem, hne⟩ := List.mem_filter.mp hm
        rw [← hsound.handle_eq m hmem]
        simpa using hne
      exact (outranks_lowered (horder a ha) (horder b hb)).mpr hab
    · have hnew : (t.nextMount new priority).lowered gone = t'.nextMount new priority := by
        have hlowered : lowered gone t.nextOrder = t'.nextOrder := by
          rw [lowered, if_pos (by omega)]
          omega
        simp only [Mount.lowered, nextMount, hlowered]
      have hkept : (t.nextMount new priority).handle ≠ gone := by
        change t.nextOrder ≠ gone
        omega
      refine (t'.add_mounts_perm new priority).trans ?_
      refine List.Perm.trans ?_
        (((t.add_mounts_perm new priority).filter fun m => m.handle ≠ gone).map _).symm
      rw [List.filter_cons_of_pos (by simpa using hkept), List.map_cons, hnew, ← h.mounts]
  nextOrder := congrArg (· + 1) h.nextOrder
  issued := Nat.le_succ_of_le h.issued
  archive := by
    intro m hm hgone
    have hissued := h.issued
    have hnext := h.nextOrder
    rcases mem_add_mounts.mp hm with rfl | hm
    · change t.nextOrder = gone at hgone
      omega
    · exact h.archive m hm hgone

theorem step (h : t.Without t' gone archive) (hs : t.Sound) (hs' : t'.Sound)
    {request : MountRequest} (hother : ¬ request.Uses gone archive.id) :
    (t.after request).Without (t'.after (request.lowered gone)) gone archive := by
  cases request with
  | mount new priority =>
      change ¬ archive.id.named new.id.name = true at hother
      change Without _ (t'.after (.mount new priority)) _ _
      rw [after_mount, after_mount, h.find?_isSome hother]
      split
      next => exact h
      next hfree =>
        have hnone : t.find? new.id.name = none := by simpa using hfree
        have hnone' : t'.find? new.id.name = none := by
          rwa [← h.find?_isSome hother, Option.not_isSome_iff_eq_none] at hfree
        exact h.add hs hnone hnone' hs' priority
  | unmount handle =>
      change ¬ handle = gone at hother
      refine ⟨?_, ?_, ?_, ?_⟩
      · rw [MountRequest.lowered, after_unmount_mounts, after_unmount_mounts]
        apply h.filter
        intro m _ hne
        rw [decide_eq_decide, not_iff_not]
        exact lowered_inj hne hother
      · rw [MountRequest.lowered, after_nextOrder_of_unmount,
          after_nextOrder_of_unmount, h.nextOrder]
      · rw [MountRequest.lowered, after_nextOrder_of_unmount]
        exact h.issued
      · intro m hm
        rw [after_unmount_mounts] at hm
        exact h.archive m (List.mem_filter.mp hm).1
  | unmountNamed name =>
      change Without _ (t'.after (.unmountNamed name)) _ _
      refine ⟨?_, ?_, ?_, ?_⟩
      · rw [hs.after_unmountNamed_mounts, hs'.after_unmountNamed_mounts]
        exact h.filter fun _ _ _ => rfl
      · rw [hs.after_nextOrder_of_unmountNamed, hs'.after_nextOrder_of_unmountNamed, h.nextOrder]
      · rw [hs'.after_nextOrder_of_unmountNamed]
        exact h.issued
      · intro m hm
        rw [hs.after_unmountNamed_mounts] at hm
        exact h.archive m (List.mem_filter.mp hm).1

theorem run (h : t.Without t' gone archive) (hs : t.Sound) (hs' : t'.Sound)
    {requests : List MountRequest}
    (hother : ∀ request ∈ requests, ¬ request.Uses gone archive.id) :
    (requests.foldl after t).Without
      ((requests.map (MountRequest.lowered gone)).foldl after t') gone archive := by
  induction requests generalizing t t' with
  | nil => exact h
  | cons request requests ih =>
      apply ih (h.step hs hs' (hother request (by simp))) (sound_after hs request)
        (sound_after hs' (request.lowered gone))
      intro other hmem
      exact hother other (by simp [hmem])

/-- A mount that has just been made is all that differs. -/
theorem of_add (hs : t.Sound) (archive : Archive) (priority : Int) :
    (t.add archive priority).Without t t.nextOrder archive where
  mounts := by
    have hkept : (t.add archive priority).mounts.filter (fun m => m.handle ≠ t.nextOrder) =
        t.mounts := by
      have hothers : ∀ m ∈ t.mounts, m.handle ≠ t.nextOrder := by
        intro m hm
        rw [hs.handle_eq m hm]
        exact Nat.ne_of_lt (hs.order_lt m hm)
      rw [MountTable.add, filter_insertRanked (by simp)]
      exact List.filter_eq_self.mpr fun m hm => by simpa using hothers m hm
    have hsame : ∀ m ∈ t.mounts, m.lowered t.nextOrder = id m := by
      intro m hm
      have hlt := hs.order_lt m hm
      have hhandle := hs.handle_eq m hm
      rw [Mount.lowered, lowered, lowered, if_neg (by omega), if_neg (by omega)]
      rfl
    rw [hkept, List.map_congr_left hsame, List.map_id]
  nextOrder := rfl
  issued := Nat.le_refl _
  archive := by
    intro m hm hgone
    rcases mem_add_mounts.mp hm with rfl | hm
    · rfl
    · have hlt := hs.order_lt m hm
      rw [← hs.handle_eq m hm] at hlt
      omega

theorem remove (h : t.Without t' gone archive) : (t.remove gone).Without t' gone archive where
  mounts := by
    rw [h.mounts, MountTable.remove, List.filter_filter]
    simp
  nextOrder := h.nextOrder
  issued := h.issued
  archive := fun m hm => h.archive m (mem_remove_mounts.mp hm).1

theorem ranking_eq (h : t.Without t' gone archive) (habsent : ∀ m ∈ t.mounts, m.handle ≠ gone) :
    t.ranking = t'.ranking := by
  have hall : (t.mounts.filter fun m => m.handle ≠ gone) = t.mounts :=
    List.filter_eq_self.mpr fun m hm => by simpa using habsent m hm
  rw [ranking, ranking, h.mounts, hall, List.map_map]
  rfl

end MountTable.Without

namespace MountTable

variable {t : MountTable} {gone : Nat} {m : Mount}

theorem mem_after (hs : t.Sound) (hm : m ∈ t.mounts) {request : MountRequest}
    (hother : ¬ request.Uses m.handle m.archive.id) : m ∈ (t.after request).mounts := by
  cases request with
  | mount new priority =>
      rw [after_mount]
      split
      · exact hm
      · exact mem_add_mounts.mpr (.inr hm)
  | unmount handle =>
      rw [after_unmount_mounts]
      have hne : m.handle ≠ handle := fun heq => hother heq.symm
      exact List.mem_filter.mpr ⟨hm, by simpa using hne⟩
  | unmountNamed name =>
      rw [hs.after_unmountNamed_mounts]
      exact List.mem_filter.mpr ⟨hm, by simpa [MountRequest.Uses] using hother⟩

theorem mem_foldl_after (hs : t.Sound) (hm : m ∈ t.mounts) {requests : List MountRequest}
    (hother : ∀ request ∈ requests, ¬ request.Uses m.handle m.archive.id) :
    m ∈ (requests.foldl after t).mounts := by
  induction requests generalizing t with
  | nil => exact hm
  | cons request requests ih =>
      apply ih (sound_after hs request) (mem_after hs hm (hother request (by simp)))
      intro other hmem
      exact hother other (by simp [hmem])

theorem perform_takesOut (hs : t.Sound) (hm : m ∈ t.mounts) {request : MountRequest}
    (h : request.TakesOut m) :
    t.perform request = .ok (.unmounted m.archive, t.remove m.handle) := by
  cases h with
  | handle => exact perform_unmount_of_get? (hs.get?_handle hm)
  | @named name hname =>
      cases hfind : t.find? name with
      | none => exact absurd hname (find?_eq_none_iff.mp hfind m hm)
      | some found =>
          obtain ⟨hfound, hnamed⟩ := mem_of_find? hfind
          rw [hs.eq_of_named hm hfound hname hnamed]
          exact hs.perform_unmountNamed hfind

/-- A handle that has been given out does not come back. -/
theorem absent_after (hs : t.Sound) (habsent : ∀ m ∈ t.mounts, m.handle ≠ gone)
    (hissued : gone < t.nextOrder) (request : MountRequest) :
    (∀ m ∈ (t.after request).mounts, m.handle ≠ gone) ∧ gone < (t.after request).nextOrder := by
  cases request with
  | mount new priority =>
      rw [after_mount]
      split
      · exact ⟨habsent, hissued⟩
      · refine ⟨?_, Nat.lt_succ_of_lt hissued⟩
        intro m hm
        rcases mem_add_mounts.mp hm with rfl | hm
        · exact Nat.ne_of_gt hissued
        · exact habsent m hm
  | unmount handle =>
      rw [after_unmount_mounts, after_nextOrder_of_unmount]
      exact ⟨fun m hm => habsent m (List.mem_filter.mp hm).1, hissued⟩
  | unmountNamed name =>
      rw [hs.after_unmountNamed_mounts, hs.after_nextOrder_of_unmountNamed]
      exact ⟨fun m hm => habsent m (List.mem_filter.mp hm).1, hissued⟩

theorem absent_foldl_after (hs : t.Sound) (habsent : ∀ m ∈ t.mounts, m.handle ≠ gone)
    (hissued : gone < t.nextOrder) (requests : List MountRequest) :
    ∀ m ∈ (requests.foldl after t).mounts, m.handle ≠ gone := by
  induction requests generalizing t with
  | nil => exact habsent
  | cons request requests ih =>
      obtain ⟨habsent, hissued⟩ := absent_after hs habsent hissued request
      exact ih (sound_after hs request) habsent hissued

theorem mount_of_answer {archive : Archive} {priority : Int}
    (h : t.answer (.mount archive priority) = .ok (.mounted gone)) :
    gone = t.nextOrder ∧ t.after (.mount archive priority) = t.add archive priority := by
  cases hfind : t.find? archive.id.name with
  | some m =>
      rw [answer, perform_mount_of_taken (by simp [hfind])] at h
      cases h
  | none =>
      rw [answer, perform_mount_of_free hfind] at h
      cases h
      exact ⟨rfl, by rw [after, perform_mount_of_free hfind]⟩

/-- The table after an archive was mounted and taken out again, against the one where it never
was. -/
theorem isolated (hs : t.Sound) {archive : Archive} {priority : Int} {out : MountRequest}
    {between rest : List MountRequest}
    (hmounted : t.answer (.mount archive priority) = .ok (.mounted gone))
    (hout : out.TakesOut ⟨gone, archive, priority, gone⟩)
    (hbetween : ∀ request ∈ between, ¬ request.Uses gone archive.id)
    (hrest : ∀ request ∈ rest, ¬ request.Uses gone archive.id) :
    let full := between.foldl after (t.after (.mount archive priority))
    let shorter := (between.map (MountRequest.lowered gone)).foldl after t
    full.answer out = .ok (.unmounted archive) ∧
    (rest.foldl after (full.after out)).ranking =
      ((rest.map (MountRequest.lowered gone)).foldl after shorter).ranking := by
  intro full shorter
  obtain ⟨rfl, hadd⟩ := mount_of_answer hmounted
  have hadded : (t.add archive priority).Sound := hadd ▸ sound_after hs (.mount archive priority)
  have hfull : full = between.foldl after (t.add archive priority) := by rw [← hadd]
  have hsound : full.Sound := hfull ▸ sound_foldl_after hadded between
  have hwithout : full.Without shorter t.nextOrder archive :=
    hfull ▸ (Without.of_add hs archive priority).run hadded hs hbetween
  have hin : (⟨t.nextOrder, archive, priority, t.nextOrder⟩ : Mount) ∈ full.mounts :=
    hfull ▸ mem_foldl_after hadded (mem_add_mounts.mpr (.inl rfl)) hbetween
  have hperform := perform_takesOut hsound hin hout
  have hafter : full.after out = full.remove t.nextOrder := by
    rw [after, hperform]
  have hissued : t.nextOrder < full.nextOrder := by
    have hnext := hwithout.nextOrder
    have hle := hwithout.issued
    omega
  have hremoved := hsound.remove t.nextOrder
  constructor
  · rw [answer, hperform]
    rfl
  · rw [hafter]
    apply (hwithout.remove.run hremoved (sound_foldl_after hs _) hrest).ranking_eq
    apply absent_foldl_after hremoved _ hissued
    intro m hm
    exact (mem_remove_mounts.mp hm).2

end MountTable

/-- An archive that is mounted and taken out again, by its handle or by a name, leaves no trace:
had it never been mounted, and had later requests used the handles that are then one lower, the
ranking would be the same, and so would all answers. No other request after the mount may use its
handle or its name. -/
theorem unmount_isolation {before between rest : List MountRequest} {archive : Archive}
    {priority : Int} {gone : Nat} {out : MountRequest}
    (hmounted : (MountRun.of before).table.answer (.mount archive priority) = .ok (.mounted gone))
    (hout : out.TakesOut ⟨gone, archive, priority, gone⟩)
    (hother : ∀ request ∈ between ++ rest, ¬ request.Uses gone archive.id) :
    let run := MountRun.of (before ++ .mount archive priority :: between ++ out :: rest)
    let shorter := MountRun.of (before ++ (between ++ rest).map (MountRequest.lowered gone))
    (MountRun.of (before ++ .mount archive priority :: between)).table.answer out =
      .ok (.unmounted archive) ∧
    run.table.ranking = shorter.table.ranking ∧
    run.table.overlay.SameAnswers shorter.table.overlay := by
  intro run shorter
  obtain ⟨hanswer, hranking⟩ := MountTable.isolated (MountRun.sound_of before) hmounted hout
    (fun request hmem => hother request (List.mem_append_left _ hmem))
    (fun request hmem => hother request (List.mem_append_right _ hmem))
  have hrun : run.table = rest.foldl MountTable.after ((between.foldl MountTable.after
      ((MountRun.of before).table.after (.mount archive priority))).after out) := by
    rw [MountRun.table_of_append, List.foldl_cons, MountRun.table_of_append, List.foldl_cons]
  have hshorter : shorter.table = (rest.map (MountRequest.lowered gone)).foldl MountTable.after
      ((between.map (MountRequest.lowered gone)).foldl MountTable.after
        (MountRun.of before).table) := by
    rw [MountRun.table_of_append, List.map_append, List.foldl_append]
  rw [← hrun, ← hshorter] at hranking
  refine ⟨?_, hranking, MountTable.sameAnswers hranking⟩
  rw [MountRun.table_of_append, List.foldl_cons]
  exact hanswer

theorem unmount_isolation_renumbered : ∃ base mod patch,
    Archive.ofMemory ⟨"base"⟩ [.faithful "Data/x" ⟨#[1]⟩] = .ok base ∧
    Archive.ofMemory ⟨"mod"⟩ [.faithful "data/X" ⟨#[2]⟩] = .ok mod ∧
    Archive.ofMemory ⟨"patch"⟩ [.faithful "data/x" ⟨#[3]⟩] = .ok patch ∧
    let run := MountRun.of
      [.mount base 0, .mount mod 5, .mount patch 5, .unmountNamed "MOD", .unmount 2]
    let shorter := MountRun.of [.mount base 0, .mount patch 5, .unmount 1]
    (MountRun.of [.mount base 0]).table.answer (.mount mod 5) = .ok (.mounted 1) ∧
    (MountRun.of [.mount base 0, .mount mod 5, .mount patch 5]).table.answer
      (.unmountNamed "MOD") = .ok (.unmounted mod) ∧
    run.table.ranking = shorter.table.ranking ∧
    run.table.overlay.SameAnswers shorter.table.overlay := by
  have hload : ∃ base mod patch,
      Archive.ofMemory ⟨"base"⟩ [.faithful "Data/x" ⟨#[1]⟩] = .ok base ∧
      Archive.ofMemory ⟨"mod"⟩ [.faithful "data/X" ⟨#[2]⟩] = .ok mod ∧
      Archive.ofMemory ⟨"patch"⟩ [.faithful "data/x" ⟨#[3]⟩] = .ok patch ∧
      (MountRun.of [.mount base 0]).table.answer (.mount mod 5) = .ok (.mounted 1) ∧
      mod.id.named "MOD" = true ∧ mod.id.named patch.id.name = false :=
    ⟨_, _, _, rfl, rfl, rfl, rfl, rfl, rfl⟩
  obtain ⟨base, mod, patch, hbase, hmod, hpatch, hmounted, hname, hother⟩ := hload
  have hunused : ∀ request ∈ [.mount patch 5] ++ [.unmount 2],
      ¬ MountRequest.Uses 1 mod.id request := by
    simp [MountRequest.Uses, hother]
  obtain ⟨hanswer, hranking, hsame⟩ := unmount_isolation hmounted (.named hname) hunused
  exact ⟨base, mod, patch, hbase, hmod, hpatch, hmounted, hanswer, hranking, hsame⟩

end Isolation

section Order

theorem filter_priority_insertRanked {m : Mount} {mounts : List Mount}
    (hlater : ∀ other ∈ mounts, other.order < m.order) (priority : Int) :
    (MountTable.insertRanked m mounts).filter (fun other => other.priority = priority) =
      (m :: mounts).filter fun other => other.priority = priority := by
  induction mounts with
  | nil => rfl
  | cons other rest ih =>
      have hrest := ih fun x hx => hlater x (by simp [hx])
      rw [MountTable.insertRanked]
      split
      next houtranks =>
        have horder := hlater other (by simp)
        rw [Mount.outranks_iff] at houtranks
        rw [List.filter_cons, hrest]
        simp only [List.filter_cons, decide_eq_true_eq]
        -- What stays in front has a greater priority, so not both have the one asked for.
        split <;> split <;> first | rfl | omega
      next => rfl

section Descending

variable {α : Type} {key : α → Int} {rows rows' : List α}

theorem mem_of_filter_key_eq
    (heq : ∀ k, (rows.filter fun a => key a = k) = rows'.filter fun a => key a = k)
    {a : α} (ha : a ∈ rows) : a ∈ rows' := by
  have hfilter : a ∈ rows.filter fun b => key b = key a := by simpa using ha
  rw [heq] at hfilter
  exact (List.mem_filter.mp hfilter).1

theorem key_le_head {first a : α} (h : (first :: rows).Pairwise fun a b => key b ≤ key a)
    (ha : a ∈ first :: rows) : key a ≤ key first := by
  rcases List.mem_cons.mp ha with rfl | ha
  · exact Int.le_refl _
  · exact (List.pairwise_cons.mp h).1 a ha

/-- A row that descends by a key is settled by the members with each key, in their order. -/
theorem eq_of_filter_key_eq (h : rows.Pairwise fun a b => key b ≤ key a)
    (h' : rows'.Pairwise fun a b => key b ≤ key a)
    (heq : ∀ k, (rows.filter fun a => key a = k) = rows'.filter fun a => key a = k) :
    rows = rows' := by
  induction rows generalizing rows' with
  | nil =>
      cases rows' with
      | nil => rfl
      | cons first rest => cases mem_of_filter_key_eq (fun k => (heq k).symm) List.mem_cons_self
  | cons first rest ih =>
      cases rows' with
      | nil => cases mem_of_filter_key_eq heq List.mem_cons_self
      | cons first' rest' =>
          have hkey : key first = key first' := by
            have hle := key_le_head h' (mem_of_filter_key_eq heq List.mem_cons_self)
            have hge := key_le_head h
              (mem_of_filter_key_eq (fun k => (heq k).symm) List.mem_cons_self)
            omega
          have hfirst : first = first' := by
            have hk := heq (key first)
            rw [List.filter_cons_of_pos (by simp), List.filter_cons_of_pos (by simp [hkey])] at hk
            exact (List.cons.inj hk).1
          have hrest : ∀ k, (rest.filter fun a => key a = k) =
              rest'.filter fun a => key a = k := by
            intro k
            have hk := heq k
            simp only [List.filter_cons, hkey] at hk
            split at hk
            · exact (List.cons.inj hk).2
            · exact hk
          rw [hfirst, ih h.of_cons h'.of_cons hrest]

end Descending

namespace MountTable

variable {t : MountTable}

theorem Sound.ranking_descending (hs : t.Sound) :
    t.ranking.Pairwise fun a b => b.2 ≤ a.2 := by
  rw [ranking, List.pairwise_map]
  refine hs.ranked.imp ?_
  intro a b hab
  rw [Mount.outranks_iff] at hab
  omega

theorem filter_ranking (t : MountTable) (priority : Int) :
    (t.ranking.filter fun row => row.2 = priority) =
      (t.mounts.filter fun m => m.priority = priority).map fun m => (m.archive, m.priority) := by
  rw [ranking, List.filter_map]
  rfl

/-- A new mount comes first among those of its priority. -/
theorem Sound.filter_ranking_add (hs : t.Sound) (archive : Archive) (added priority : Int) :
    ((t.add archive added).ranking.filter fun row => row.2 = priority) =
      ((archive, added) :: t.ranking).filter fun row => row.2 = priority := by
  have hmounts : (t.add archive added).mounts.filter (fun m => m.priority = priority) =
      (t.nextMount archive added :: t.mounts).filter fun m => m.priority = priority :=
    filter_priority_insertRanked hs.order_lt priority
  have hrows : (archive, added) :: t.ranking =
      (t.nextMount archive added :: t.mounts).map fun m => (m.archive, m.priority) := rfl
  rw [filter_ranking, hmounts, hrows, List.filter_map]
  rfl

end MountTable

/-- The requests that mount these archives one after the other. -/
def mountAll (rows : List (Archive × Int)) : List MountRequest :=
  rows.map fun (archive, priority) => .mount archive priority

/-- Archives with different names are all mounted, each before those of its priority that came
earlier. -/
theorem mountAll_run {rows : List (Archive × Int)}
    (hnames : rows.Pairwise fun a b => ¬ a.1.id.named b.1.id.name = true) :
    let run := MountRun.of (mountAll rows)
    run.history.map MountEvent.answer =
      (List.range rows.length).map (fun handle => .ok (.mounted handle)) ∧
    run.table.nextOrder = rows.length ∧
    (∀ m ∈ run.table.mounts, ∃ row ∈ rows, m.archive = row.1) ∧
    ∀ priority, (run.table.ranking.filter fun row => row.2 = priority) =
      (rows.filter fun row => row.2 = priority).reverse := by
  induction rows using List.reverseRecOn with
  | nil =>
    exact ⟨rfl, rfl, by simp [mountAll, MountRun.of, MountRun.start, MountTable.empty],
      fun _ => rfl⟩
  | append_singleton rows last ih =>
      rcases last with ⟨archive, added⟩
      obtain ⟨hbefore, -, hlast⟩ := List.pairwise_append.mp hnames
      obtain ⟨hhistory, hnext, hmounts, hranking⟩ := ih hbefore
      have hrequests : mountAll (rows ++ [(archive, added)]) =
          mountAll rows ++ [.mount archive added] := by simp [mountAll]
      have hfree : (MountRun.of (mountAll rows)).table.find? archive.id.name = none := by
        rw [MountTable.find?_eq_none_iff]
        intro m hm
        obtain ⟨row, hrow, heq⟩ := hmounts m hm
        rw [heq]
        exact hlast row hrow (archive, added) (by simp)
      have hstep := MountRun.step_of_perform_ok (MountTable.perform_mount_of_free hfree added)
      rw [hrequests, MountRun.of_concat, hstep]
      refine ⟨?_, ?_, ?_, ?_⟩
      · rw [List.map_append, hhistory, hnext, List.length_append, List.length_singleton,
          List.range_succ, List.map_append]
        rfl
      · change (MountRun.of (mountAll rows)).table.nextOrder + 1 = _
        rw [hnext, List.length_append, List.length_singleton]
      · intro m hm
        rcases MountTable.mem_add_mounts.mp hm with rfl | hm
        · exact ⟨(archive, added), by simp, rfl⟩
        · obtain ⟨row, hrow, heq⟩ := hmounts m hm
          exact ⟨row, by simp [hrow], heq⟩
      · intro priority
        change ((MountRun.of (mountAll rows)).table.add archive added).ranking.filter _ = _
        rw [(MountRun.sound_of _).filter_ranking_add, List.filter_append, List.reverse_append,
          ← hranking, List.filter_cons, List.filter_cons]
        split <;> rfl

/-- The order in which archives are mounted matters only among those of equal priority: where that
is the same, all mounts succeed in either order, and the overlays give the same answers. -/
theorem mount_order_irrelevant {rows rows' : List (Archive × Int)} (hperm : rows.Perm rows')
    (hnames : rows.Pairwise fun a b => ¬ a.1.id.named b.1.id.name = true)
    (horder : ∀ priority,
      (rows.filter fun row => row.2 = priority) = rows'.filter fun row => row.2 = priority) :
    let run := MountRun.of (mountAll rows)
    let run' := MountRun.of (mountAll rows')
    run.history.map MountEvent.answer =
      (List.range rows.length).map (fun handle => .ok (.mounted handle)) ∧
    run'.history.map MountEvent.answer =
      (List.range rows'.length).map (fun handle => .ok (.mounted handle)) ∧
    run.table.ranking = run'.table.ranking ∧
    run.table.overlay.SameAnswers run'.table.overlay := by
  intro run run'
  have hnames' : rows'.Pairwise fun a b => ¬ a.1.id.named b.1.id.name = true := by
    refine (hperm.pairwise_iff ?_).mp hnames
    intro a b hab
    rwa [ArchiveId.named_comm]
  obtain ⟨hhistory, -, -, hfilter⟩ := mountAll_run hnames
  obtain ⟨hhistory', -, -, hfilter'⟩ := mountAll_run hnames'
  have hranking : run.table.ranking = run'.table.ranking := by
    apply eq_of_filter_key_eq (MountRun.sound_of _).ranking_descending
      (MountRun.sound_of _).ranking_descending
    intro priority
    rw [hfilter, hfilter', horder]
  exact ⟨hhistory, hhistory', hranking, MountTable.sameAnswers hranking⟩

theorem mount_order_irrelevant_swapped : ∃ base mod patch,
    Archive.ofMemory ⟨"base"⟩ [.faithful "Data/x" ⟨#[1]⟩] = .ok base ∧
    Archive.ofMemory ⟨"mod"⟩ [.faithful "data/X" ⟨#[2]⟩] = .ok mod ∧
    Archive.ofMemory ⟨"patch"⟩ [.faithful "data/x" ⟨#[3]⟩] = .ok patch ∧
    let run := MountRun.of (mountAll [(base, 0), (mod, 5), (patch, 5)])
    let run' := MountRun.of (mountAll [(mod, 5), (patch, 5), (base, 0)])
    run.history.map MountEvent.answer = [.ok (.mounted 0), .ok (.mounted 1), .ok (.mounted 2)] ∧
    run.table.ranking = run'.table.ranking ∧
    run.table.overlay.SameAnswers run'.table.overlay ∧
    (run.table.find? "base").map Mount.handle = some 0 ∧
    (run'.table.find? "base").map Mount.handle = some 2 := by
  have hload : ∃ base mod patch,
      Archive.ofMemory ⟨"base"⟩ [.faithful "Data/x" ⟨#[1]⟩] = .ok base ∧
      Archive.ofMemory ⟨"mod"⟩ [.faithful "data/X" ⟨#[2]⟩] = .ok mod ∧
      Archive.ofMemory ⟨"patch"⟩ [.faithful "data/x" ⟨#[3]⟩] = .ok patch ∧
      base.id.named mod.id.name = false ∧ base.id.named patch.id.name = false ∧
      mod.id.named patch.id.name = false ∧
      ((MountRun.of (mountAll [(base, 0), (mod, 5), (patch, 5)])).table.find? "base").map
        Mount.handle = some 0 ∧
      ((MountRun.of (mountAll [(mod, 5), (patch, 5), (base, 0)])).table.find? "base").map
        Mount.handle = some 2 :=
    ⟨_, _, _, rfl, rfl, rfl, rfl, rfl, rfl, rfl, rfl⟩
  obtain ⟨base, mod, patch, hbase, hmod, hpatch, hmod', hpatch', hboth, hfirst, hlast⟩ := hload
  have horder : ∀ priority : Int,
      ([(base, 0), (mod, 5), (patch, 5)].filter fun row => row.2 = priority) =
        [(mod, 5), (patch, 5), (base, 0)].filter fun row => row.2 = priority := by
    intro priority
    rcases eq_or_ne 0 priority with rfl | hpriority
    · rfl
    · simp [List.filter_cons, hpriority]
  have hperm : [(base, 0), (mod, 5), (patch, 5)].Perm [(mod, 5), (patch, 5), (base, (0 : Int))] :=
    @List.perm_append_comm _ [(base, 0)] [(mod, 5), (patch, 5)]
  obtain ⟨hhistory, -, hranking, hanswers⟩ := mount_order_irrelevant hperm
    (by simp [hmod', hpatch', hboth]) horder
  exact ⟨base, mod, patch, hbase, hmod, hpatch, hhistory, hranking, hanswers, hfirst, hlast⟩

end Order

end ArchiveOverlay
