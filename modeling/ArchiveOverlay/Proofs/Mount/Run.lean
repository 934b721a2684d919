import ArchiveOverlay.Proofs.Mount.Ranking
import Mathlib.Data.List.Induction

/-!
Runs of a mount table: any row of requests from the empty table on, with the answer that each got.
Main statement: every table that a run leads to is sound, and its numbers count what has happened.
-/

namespace ArchiveOverlay

inductive MountRequest where
  | mount (archive : Archive) (priority : Int)
  | unmount (handle : Nat)
  | unmountNamed (name : String)

inductive MountAnswer where
  | mounted (handle : Nat)
  | unmounted (archive : Archive)

def MountTable.perform (t : MountTable) : MountRequest → Except Error (MountAnswer × MountTable)
  | .mount archive priority =>
    (t.mount archive priority).map fun (handle, t) => (.mounted handle, t)
  | .unmount handle => (t.unmount handle).map fun (archive, t) => (.unmounted archive, t)
  | .unmountNamed name => (t.unmountNamed name).map fun (archive, t) => (.unmounted archive, t)

def MountTable.answer (t : MountTable) (request : MountRequest) : Except Error MountAnswer :=
  (t.perform request).map Prod.fst

/-- The table after a request. One that fails leaves it as it was. -/
def MountTable.after (t : MountTable) (request : MountRequest) : MountTable :=
  match t.perform request with
  | .ok (_, t') => t'
  | .error _ => t

structure MountEvent where
  request : MountRequest
  answer : Except Error MountAnswer

namespace MountEvent

def succeeded (e : MountEvent) : Bool :=
  e.answer.isOk

def isMount : MountEvent → Bool
  | ⟨.mount .., .ok _⟩ => true
  | _ => false

def isUnmount : MountEvent → Bool
  | ⟨.unmount _, .ok _⟩ => true
  | ⟨.unmountNamed _, .ok _⟩ => true
  | _ => false

@[simp] theorem succeeded_ok (request : MountRequest) (answer : MountAnswer) :
    succeeded ⟨request, .ok answer⟩ = true := rfl

@[simp] theorem succeeded_error (request : MountRequest) (e : Error) :
    succeeded ⟨request, .error e⟩ = false := rfl

@[simp] theorem isMount_mount_ok (archive : Archive) (priority : Int) (answer : MountAnswer) :
    isMount ⟨.mount archive priority, .ok answer⟩ = true := rfl

@[simp] theorem isMount_error (request : MountRequest) (e : Error) :
    isMount ⟨request, .error e⟩ = false := by
  cases request <;> rfl

@[simp] theorem isUnmount_mount (archive : Archive) (priority : Int)
    (answer : Except Error MountAnswer) :
    isUnmount ⟨.mount archive priority, answer⟩ = false := by
  cases answer <;> rfl

@[simp] theorem isUnmount_error (request : MountRequest) (e : Error) :
    isUnmount ⟨request, .error e⟩ = false := by
  cases request <;> rfl

end MountEvent

/-- A mount table and all that has happened to it, the first event first. -/
structure MountRun where
  table : MountTable
  history : List MountEvent

namespace MountRun

def start : MountRun :=
  ⟨.empty, []⟩

def step (r : MountRun) (request : MountRequest) : MountRun :=
  ⟨r.table.after request, r.history ++ [⟨request, r.table.answer request⟩]⟩

/-- The run of these requests on the empty table. -/
def of (requests : List MountRequest) : MountRun :=
  requests.foldl step start

theorem of_concat (requests : List MountRequest) (request : MountRequest) :
    of (requests ++ [request]) = (of requests).step request :=
  List.foldl_concat _ _ _ _

/-- What holds at the start and is kept by every further request holds of every run. -/
theorem of_induction {P : MountRun → Prop} (hstart : P start)
    (hstep : ∀ requests request, P (of requests) → P ((of requests).step request))
    (requests : List MountRequest) : P (of requests) := by
  induction requests using List.reverseRecOn with
  | nil => exact hstart
  | append_singleton requests request ih =>
      rw [of_concat]
      exact hstep requests request ih

end MountRun

namespace MountTable

variable {t : MountTable}

theorem mem_of_find? {name : String} {m : Mount} (h : t.find? name = some m) :
    m ∈ t.mounts ∧ m.archive.id.named name = true := by
  rw [find?, List.find?_eq_some_iff_append] at h
  obtain ⟨hname, before, after, hmounts, -⟩ := h
  exact ⟨by simp [hmounts], hname⟩

theorem mem_of_get? {handle : Nat} {m : Mount} (h : t.get? handle = some m) :
    m ∈ t.mounts ∧ m.handle = handle :=
  ⟨List.mem_of_find?_eq_some h, by simpa using List.find?_some h⟩

theorem Sound.get?_handle (hs : t.Sound) {m : Mount} (hm : m ∈ t.mounts) :
    t.get? m.handle = some m := by
  cases hget : t.get? m.handle with
  | none =>
      have hnone := List.find?_eq_none.mp hget m hm
      simp at hnone
  | some other =>
      obtain ⟨hother, hhandle⟩ := mem_of_get? hget
      rw [hs.eq_of_handle_eq hother hm hhandle]

/-- A name is never ambiguous: what `find?` finds is all there is. -/
theorem Sound.filter_named (hs : t.Sound) (name : String) :
    (t.mounts.filter fun m => m.archive.id.named name) = (t.find? name).toList := by
  cases hfind : t.find? name with
  | none => exact List.filter_eq_nil_iff.mpr (find?_eq_none_iff.mp hfind)
  | some m =>
      rw [find?, List.find?_eq_some_iff_append] at hfind
      obtain ⟨hname, front, back, hmounts, hfront⟩ := hfind
      have hback : ∀ other ∈ back, ¬ other.archive.id.named name = true := by
        intro other hother hnamed
        have hapart := hs.names_apart
        rw [hmounts] at hapart
        have hm := (List.pairwise_cons.mp (List.pairwise_append.mp hapart).2.1).1 other hother
        exact hm (ArchiveId.named_of_named hname hnamed)
      rw [hmounts, List.filter_append, List.filter_cons, if_pos hname,
        List.filter_eq_nil_iff.mpr (by simpa using hfront), List.filter_eq_nil_iff.mpr hback]
      rfl

theorem perform_mount_of_free {archive : Archive} (hfree : t.find? archive.id.name = none)
    (priority : Int) :
    t.perform (.mount archive priority) =
      .ok (.mounted t.nextOrder, t.add archive priority) := by
  simp [perform, mount, hfree, Except.map]

theorem perform_mount_of_taken {archive : Archive}
    (htaken : (t.find? archive.id.name).isSome) (priority : Int) :
    t.perform (.mount archive priority) = .error (.duplicateMount archive.id) := by
  simp [perform, mount, htaken, Except.map]

theorem perform_unmount_of_get? {handle : Nat} {m : Mount} (hget : t.get? handle = some m) :
    t.perform (.unmount handle) = .ok (.unmounted m.archive, t.remove handle) := by
  simp [perform, unmount, hget, Except.map]

theorem perform_unmount_of_unknown {handle : Nat} (hget : t.get? handle = none) :
    t.perform (.unmount handle) = .error (.unknownMount handle) := by
  simp [perform, unmount, hget, Except.map]

theorem Sound.perform_unmountNamed (hs : t.Sound) {name : String} {m : Mount}
    (hfind : t.find? name = some m) :
    t.perform (.unmountNamed name) = .ok (.unmounted m.archive, t.remove m.handle) := by
  have hget := hs.get?_handle (mem_of_find? hfind).1
  simp [perform, unmountNamed, unmount, hfind, hget, Except.map]

theorem perform_unmountNamed_of_unknown {name : String} (hfind : t.find? name = none) :
    t.perform (.unmountNamed name) = .error (.notMounted ⟨name⟩) := by
  simp [perform, unmountNamed, hfind, Except.map]

end MountTable

/-- That a request asks for a certain mount to be taken out of use. -/
inductive MountRequest.TakesOut (m : Mount) : MountRequest → Prop
  | handle : TakesOut m (.unmount m.handle)
  | named {name : String} (hname : m.archive.id.named name = true) :
      TakesOut m (.unmountNamed name)

namespace MountRequest.TakesOut

variable {m : Mount} {request : MountRequest}

theorem isMount_eq_false (h : request.TakesOut m) (answer : Except Error MountAnswer) :
    MountEvent.isMount ⟨request, answer⟩ = false := by
  cases h <;> rfl

theorem isUnmount_eq_true (h : request.TakesOut m) (answer : MountAnswer) :
    MountEvent.isUnmount ⟨request, .ok answer⟩ = true := by
  cases h <;> rfl

end MountRequest.TakesOut

namespace MountRun

theorem step_of_perform_ok {r : MountRun} {request : MountRequest} {answer : MountAnswer}
    {t : MountTable} (h : r.table.perform request = .ok (answer, t)) :
    r.step request = ⟨t, r.history ++ [⟨request, .ok answer⟩]⟩ := by
  simp [step, MountTable.after, MountTable.answer, h, Except.map]

theorem step_of_perform_error {r : MountRun} {request : MountRequest} {e : Error}
    (h : r.table.perform request = .error e) :
    r.step request = ⟨r.table, r.history ++ [⟨request, .error e⟩]⟩ := by
  simp [step, MountTable.after, MountTable.answer, h, Except.map]

/-- All that a request can do to a sound table. -/
theorem step_cases {r : MountRun} (hs : r.table.Sound) (request : MountRequest) :
    (∃ archive priority, request = .mount archive priority ∧
      r.table.find? archive.id.name = none ∧
      r.step request = ⟨r.table.add archive priority,
        r.history ++ [⟨request, .ok (.mounted r.table.nextOrder)⟩]⟩) ∨
    (∃ m ∈ r.table.mounts, request.TakesOut m ∧
      r.step request = ⟨r.table.remove m.handle,
        r.history ++ [⟨request, .ok (.unmounted m.archive)⟩]⟩) ∨
    (∃ e, r.step request = ⟨r.table, r.history ++ [⟨request, .error e⟩]⟩) := by
  cases request with
  | mount archive priority =>
      cases hfind : r.table.find? archive.id.name with
      | none =>
          refine .inl ⟨archive, priority, rfl, hfind, ?_⟩
          exact step_of_perform_ok (MountTable.perform_mount_of_free hfind priority)
      | some m =>
          refine .inr (.inr ⟨.duplicateMount archive.id, ?_⟩)
          have htaken : (r.table.find? archive.id.name).isSome := by simp [hfind]
          exact step_of_perform_error (MountTable.perform_mount_of_taken htaken priority)
  | unmount handle =>
      cases hget : r.table.get? handle with
      | none =>
          refine .inr (.inr ⟨.unknownMount handle, ?_⟩)
          exact step_of_perform_error (MountTable.perform_unmount_of_unknown hget)
      | some m =>
          obtain ⟨hm, rfl⟩ := MountTable.mem_of_get? hget
          refine .inr (.inl ⟨m, hm, .handle, ?_⟩)
          exact step_of_perform_ok (MountTable.perform_unmount_of_get? hget)
  | unmountNamed name =>
      cases hfind : r.table.find? name with
      | none =>
          refine .inr (.inr ⟨.notMounted ⟨name⟩, ?_⟩)
          exact step_of_perform_error (MountTable.perform_unmountNamed_of_unknown hfind)
      | some m =>
          obtain ⟨hm, hname⟩ := MountTable.mem_of_find? hfind
          refine .inr (.inl ⟨m, hm, .named hname, ?_⟩)
          exact step_of_perform_ok (hs.perform_unmountNamed hfind)

theorem sound_step {r : MountRun} (hs : r.table.Sound) (request : MountRequest) :
    (r.step request).table.Sound := by
  rcases step_cases hs request with ⟨archive, priority, -, hfree, heq⟩ | ⟨m, -, -, heq⟩ | ⟨e, heq⟩
  · rw [heq]
    exact hs.add hfree priority
  · rw [heq]
    exact hs.remove m.handle
  · rw [heq]
    exact hs

theorem sound_of (requests : List MountRequest) : (of requests).table.Sound :=
  of_induction (P := fun r => r.table.Sound) MountTable.sound_empty
    (fun _ request hs => sound_step hs request) requests

end MountRun

theorem MountTable.length_add (t : MountTable) (archive : Archive) (priority : Int) :
    (t.add archive priority).mounts.length = t.mounts.length + 1 := by
  simpa using (t.add_mounts_perm archive priority).length_eq

/-- Removal takes out one mount and leaves all others where they are. -/
theorem MountTable.Sound.remove_split {t : MountTable} (hs : t.Sound) {m : Mount}
    (hm : m ∈ t.mounts) :
    ∃ front back, t.mounts = front ++ m :: back ∧
      (t.remove m.handle).mounts = front ++ back := by
  obtain ⟨front, back, hmounts⟩ := List.append_of_mem hm
  have hnodup := hs.handles_nodup
  rw [hmounts, List.map_append, List.map_cons, List.nodup_middle, List.nodup_cons] at hnodup
  have hother : ∀ other ∈ front ++ back, other.handle ≠ m.handle := by
    intro other hother heq
    apply hnodup.1
    rw [← List.map_append, ← heq]
    exact List.mem_map_of_mem hother
  refine ⟨front, back, hmounts, ?_⟩
  have hfront : front.filter (fun other => decide (other.handle ≠ m.handle)) = front :=
    List.filter_eq_self.mpr fun other h => by simpa using hother other (by simp [h])
  have hback : back.filter (fun other => decide (other.handle ≠ m.handle)) = back :=
    List.filter_eq_self.mpr fun other h => by simpa using hother other (by simp [h])
  calc
    (t.remove m.handle).mounts =
        (front ++ m :: back).filter (fun other => decide (other.handle ≠ m.handle)) := by
      rw [MountTable.remove, hmounts]
    _ = front ++ back := by
      rw [List.filter_append, List.filter_cons_of_neg (by simp), hfront, hback]

theorem MountTable.Sound.length_remove {t : MountTable} (hs : t.Sound) {m : Mount}
    (hm : m ∈ t.mounts) : (t.remove m.handle).mounts.length + 1 = t.mounts.length := by
  obtain ⟨front, back, hmounts, hremove⟩ := hs.remove_split hm
  rw [hmounts, hremove]
  simp only [List.length_append, List.length_cons]
  omega

namespace MountRun

/-- The numbers of a table count what has happened to it. -/
structure Counted (r : MountRun) : Prop where
  generation_eq : r.table.generation = r.history.countP MountEvent.succeeded
  nextOrder_eq : r.table.nextOrder = r.history.countP MountEvent.isMount
  length_eq : r.table.mounts.length + r.history.countP MountEvent.isUnmount =
    r.history.countP MountEvent.isMount

theorem counted_step {r : MountRun} (hs : r.table.Sound) (hc : r.Counted)
    (request : MountRequest) : (r.step request).Counted := by
  obtain ⟨hgeneration, hnext, hlength⟩ := hc
  rcases step_cases hs request with
    ⟨archive, priority, rfl, -, heq⟩ | ⟨m, hm, htakes, heq⟩ | ⟨e, heq⟩
  · have hadd := r.table.length_add archive priority
    rw [heq]
    refine ⟨?_, ?_, ?_⟩ <;> simp only [List.countP_append, List.countP_singleton]
    · simpa [MountTable.add] using hgeneration
    · simpa [MountTable.add] using hnext
    · simp
      omega
  · have hremove := hs.length_remove hm
    rw [heq]
    refine ⟨?_, ?_, ?_⟩ <;> simp only [List.countP_append, List.countP_singleton]
    · simpa [MountTable.remove] using hgeneration
    · simpa [MountTable.remove, htakes.isMount_eq_false] using hnext
    · simp [htakes.isMount_eq_false, htakes.isUnmount_eq_true]
      omega
  · rw [heq]
    refine ⟨?_, ?_, ?_⟩ <;> simpa [List.countP_append]

theorem counted_of (requests : List MountRequest) : (of requests).Counted :=
  of_induction ⟨rfl, rfl, rfl⟩
    (fun before request hc => counted_step (sound_of before) hc request) requests

/-- Every table that a run leads to is strictly ranked, tells its mounts apart by order, by handle
and by name, and counts the changes, the mounts and the archives in use. -/
theorem table_invariants (requests : List MountRequest) :
    let t := (of requests).table
    let history := (of requests).history
    (t.mounts.Pairwise fun a b =>
      b.priority < a.priority ∨ (a.priority = b.priority ∧ b.order < a.order)) ∧
    (t.mounts.map Mount.order).Nodup ∧
    (t.mounts.map Mount.handle).Nodup ∧
    (∀ m ∈ t.mounts, m.handle = m.order ∧ m.handle < t.nextOrder) ∧
    (t.mounts.Pairwise fun a b =>
      Text.lowercase a.archive.id.name ≠ Text.lowercase b.archive.id.name) ∧
    (∀ name, (t.mounts.filter fun m => m.archive.id.named name) = (t.find? name).toList) ∧
    t.generation = history.countP MountEvent.succeeded ∧
    t.nextOrder = history.countP MountEvent.isMount ∧
    t.mounts.length + history.countP MountEvent.isUnmount =
      history.countP MountEvent.isMount := by
  intro t history
  have hs : t.Sound := sound_of requests
  obtain ⟨hgeneration, hnext, hlength⟩ := counted_of requests
  refine ⟨?_, hs.orders_nodup, hs.handles_nodup, ?_, ?_, ?_, hgeneration, hnext, hlength⟩
  · exact hs.ranked.imp Mount.outranks_iff.mp
  · intro m hm
    exact ⟨hs.handle_eq m hm, hs.handle_eq m hm ▸ hs.order_lt m hm⟩
  · refine hs.names_apart.imp ?_
    intro a b hab heq
    exact hab (ArchiveId.named_iff.mpr heq)
  · exact hs.filter_named

end MountRun

end ArchiveOverlay
