import ArchiveOverlay.Proofs.Mount.Run

/-!
A mount table against its history. Which archives are in use, and since when, is read off the
requests and answers alone; the table agrees with it after every run, so each further answer is
decided by what has happened before.
-/

namespace ArchiveOverlay

/-- A mount as a history tells of it. -/
structure RecordedMount where
  /-- How many events there were before. -/
  time : Nat
  handle : Nat
  archive : Archive
  priority : Int

namespace RecordedMount

/-- By priority, and among equals by being later. -/
def Outranks (a b : RecordedMount) : Prop :=
  b.priority < a.priority ∨ (a.priority = b.priority ∧ b.time < a.time)

def toMount (m : RecordedMount) : Mount :=
  ⟨m.handle, m.archive, m.priority, m.handle⟩

end RecordedMount

namespace MountEvent

def issued? : MountEvent → Option Nat
  | ⟨.mount .., .ok (.mounted handle)⟩ => some handle
  | _ => none

/-- That the event took a mount out of use, by its handle or by a name of its archive. -/
def Removes (e : MountEvent) (m : RecordedMount) : Prop :=
  match e with
  | ⟨.unmount handle, .ok _⟩ => handle = m.handle
  | ⟨.unmountNamed name, .ok _⟩ => m.archive.id.named name = true
  | _ => False

theorem isMount_of_issued? {e : MountEvent} {handle : Nat} (h : e.issued? = some handle) :
    e.isMount = true := by
  rcases e with ⟨_ | _ | _, _ | _ | _⟩ <;> first | rfl | simp [issued?] at h

@[simp] theorem not_removes_mount (archive : Archive) (priority : Int)
    (answer : Except Error MountAnswer) (m : RecordedMount) :
    ¬ Removes ⟨.mount archive priority, answer⟩ m := by
  simp [Removes]

@[simp] theorem not_removes_error (request : MountRequest) (e : Error) (m : RecordedMount) :
    ¬ Removes ⟨request, .error e⟩ m := by
  cases request <;> simp [Removes]

end MountEvent

/-- That a mount took place and that no event since has taken it out of use. -/
structure InUse (history : List MountEvent) (m : RecordedMount) : Prop where
  mounted : history[m.time]? = some ⟨.mount m.archive m.priority, .ok (.mounted m.handle)⟩
  kept : ∀ time e, m.time < time → history[time]? = some e → ¬ e.Removes m

theorem history_concat {history : List MountEvent} {e other : MountEvent} {time : Nat} :
    (history ++ [e])[time]? = some other ↔
      history[time]? = some other ∨ (time = history.length ∧ e = other) := by
  rcases Nat.lt_trichotomy time history.length with hlt | rfl | hgt
  · rw [List.getElem?_append_left hlt]
    simp [Nat.ne_of_lt hlt]
  · simp
  · have hnone : (history ++ [e])[time]? = none := by
      apply List.getElem?_eq_none
      simp only [List.length_append, List.length_singleton]
      omega
    rw [hnone, List.getElem?_eq_none (Nat.le_of_lt hgt)]
    simp [Nat.ne_of_gt hgt]

theorem time_lt_length {history : List MountEvent} {e : MountEvent} {time : Nat}
    (h : history[time]? = some e) : time < history.length :=
  (List.getElem?_eq_some_iff.mp h).1

/-- What one more event changes: it may take a mount out of use, or be a mount itself. -/
theorem inUse_concat {history : List MountEvent} {e : MountEvent} {m : RecordedMount} :
    InUse (history ++ [e]) m ↔
      (InUse history m ∧ ¬ e.Removes m) ∨
      (m.time = history.length ∧ e = ⟨.mount m.archive m.priority, .ok (.mounted m.handle)⟩) := by
  constructor
  · rintro ⟨hmounted, hkept⟩
    rcases history_concat.mp hmounted with hbefore | hlast
    · refine .inl ⟨⟨hbefore, ?_⟩, ?_⟩
      · intro time other htime hother
        exact hkept time other htime (history_concat.mpr (.inl hother))
      · exact hkept history.length e (time_lt_length hbefore) (by simp)
    · exact .inr hlast
  · rintro (⟨⟨hmounted, hkept⟩, he⟩ | ⟨htime, rfl⟩)
    · refine ⟨history_concat.mpr (.inl hmounted), ?_⟩
      intro time other htime hother
      rcases history_concat.mp hother with hbefore | ⟨-, rfl⟩
      · exact hkept time other htime hbefore
      · exact he
    · refine ⟨history_concat.mpr (.inr ⟨htime, rfl⟩), ?_⟩
      intro time other hlater hother
      have hbound := time_lt_length hother
      simp only [List.length_append, List.length_singleton] at hbound
      omega

/-- Each handle is the number of mounts before it. -/
def Numbered (history : List MountEvent) : Prop :=
  ∀ time e handle, history[time]? = some e → e.issued? = some handle →
    handle = (history.take time).countP MountEvent.isMount

theorem Numbered.concat {history : List MountEvent} {e : MountEvent} (hn : Numbered history)
    (he : ∀ handle, e.issued? = some handle → handle = history.countP MountEvent.isMount) :
    Numbered (history ++ [e]) := by
  intro time other handle hother hissued
  rcases history_concat.mp hother with hbefore | ⟨rfl, rfl⟩
  · rw [List.take_append_of_le_length (Nat.le_of_lt (time_lt_length hbefore))]
    exact hn time other handle hbefore hissued
  · rw [List.take_left']
    · exact he handle hissued
    · rfl

theorem Numbered.handle_lt {history : List MountEvent} (hn : Numbered history)
    {i j : Nat} {e f : MountEvent} {a b : Nat} (he : history[i]? = some e)
    (hf : history[j]? = some f) (ha : e.issued? = some a) (hb : f.issued? = some b)
    (hij : i < j) : a < b := by
  rw [hn i e a he ha, hn j f b hf hb]
  have hupto : (history.take (i + 1)).countP MountEvent.isMount =
      (history.take i).countP MountEvent.isMount + 1 := by
    rw [List.take_add_one, he, List.countP_append]
    simp [MountEvent.isMount_of_issued? ha]
  have hmono : (history.take (i + 1)).countP MountEvent.isMount ≤
      (history.take j).countP MountEvent.isMount :=
    List.Sublist.countP_le (List.take_sublist_take_left hij)
  omega

/-- No handle is given out twice. -/
theorem Numbered.time_eq {history : List MountEvent} (hn : Numbered history)
    {i j : Nat} {e f : MountEvent} {handle : Nat} (he : history[i]? = some e)
    (hf : history[j]? = some f) (hi : e.issued? = some handle) (hj : f.issued? = some handle) :
    i = j := by
  rcases Nat.lt_trichotomy i j with hlt | heq | hgt
  · exact absurd (hn.handle_lt he hf hi hj hlt) (Nat.lt_irrefl handle)
  · exact heq
  · exact absurd (hn.handle_lt hf he hj hi hgt) (Nat.lt_irrefl handle)

/-- In a sound table a request takes out the mount with the handle, and no other. -/
theorem MountRequest.TakesOut.removes_iff {t : MountTable} {m : Mount} {request : MountRequest}
    (h : request.TakesOut m) (hs : t.Sound) (hm : m ∈ t.mounts) (answer : MountAnswer)
    {other : RecordedMount} (hother : other.toMount ∈ t.mounts) :
    MountEvent.Removes ⟨request, .ok answer⟩ other ↔ other.handle = m.handle := by
  cases h with
  | handle => exact eq_comm
  | @named name hname =>
      constructor
      · intro hremoves
        have heq : other.toMount = m := hs.eq_of_named hother hm hremoves hname
        rw [← heq]
        rfl
      · intro hhandle
        have heq : other.toMount = m := hs.eq_of_handle_eq hother hm hhandle
        rw [← heq] at hname
        exact hname

namespace MountRun

/-- The table holds what is in use according to its history. -/
def Recorded (r : MountRun) : Prop :=
  ∀ handle archive priority,
    (⟨handle, archive, priority, handle⟩ : Mount) ∈ r.table.mounts ↔
      ∃ time, InUse r.history ⟨time, handle, archive, priority⟩

theorem numbered_step {r : MountRun} (hs : r.table.Sound) (hc : r.Counted)
    (hn : Numbered r.history) (request : MountRequest) :
    Numbered (r.step request).history := by
  rcases step_cases hs request with
    ⟨archive, priority, rfl, -, heq⟩ | ⟨m, -, htakes, heq⟩ | ⟨e, heq⟩
  · rw [heq]
    apply hn.concat
    intro handle hissued
    rw [← hc.nextOrder_eq]
    exact (Option.some.inj hissued).symm
  · rw [heq]
    apply hn.concat
    intro handle hissued
    cases htakes <;> simp [MountEvent.issued?] at hissued
  · rw [heq]
    apply hn.concat
    intro handle hissued
    cases request <;> simp [MountEvent.issued?] at hissued

theorem recorded_step {r : MountRun} (hs : r.table.Sound) (hr : r.Recorded)
    (request : MountRequest) : (r.step request).Recorded := by
  intro handle archive priority
  rcases step_cases hs request with
    ⟨archive', priority', rfl, -, heq⟩ | ⟨m, hm, htakes, heq⟩ | ⟨e, heq⟩
  · rw [heq, MountTable.mem_add_mounts, hr]
    constructor
    · rintro (hnew | ⟨time, huse⟩)
      · cases hnew
        exact ⟨r.history.length, inUse_concat.mpr (.inr ⟨rfl, rfl⟩)⟩
      · exact ⟨time, inUse_concat.mpr (.inl ⟨huse, by simp⟩)⟩
    · rintro ⟨time, huse⟩
      rcases inUse_concat.mp huse with ⟨huse, -⟩ | ⟨-, he⟩
      · exact .inr ⟨time, huse⟩
      · cases he
        exact .inl rfl
  · have hremoves : ∀ time, (⟨handle, archive, priority, handle⟩ : Mount) ∈ r.table.mounts →
        (MountEvent.Removes ⟨request, .ok (.unmounted m.archive)⟩
          ⟨time, handle, archive, priority⟩ ↔ handle = m.handle) :=
      fun time hmem => htakes.removes_iff hs hm (.unmounted m.archive) hmem
    rw [heq, MountTable.mem_remove_mounts]
    constructor
    · rintro ⟨hmem, hne⟩
      obtain ⟨time, huse⟩ := (hr handle archive priority).mp hmem
      exact ⟨time, inUse_concat.mpr (.inl ⟨huse, fun h => hne ((hremoves time hmem).mp h)⟩)⟩
    · rintro ⟨time, huse⟩
      rcases inUse_concat.mp huse with ⟨huse, hkept⟩ | ⟨-, he⟩
      · have hmem := (hr handle archive priority).mpr ⟨time, huse⟩
        exact ⟨hmem, fun h => hkept ((hremoves time hmem).mpr h)⟩
      · cases he
  · rw [heq, hr]
    constructor
    · rintro ⟨time, huse⟩
      exact ⟨time, inUse_concat.mpr (.inl ⟨huse, by simp⟩)⟩
    · rintro ⟨time, huse⟩
      rcases inUse_concat.mp huse with ⟨huse, -⟩ | ⟨-, he⟩
      · exact ⟨time, huse⟩
      · cases he

theorem numbered_of (requests : List MountRequest) : Numbered (of requests).history := by
  refine of_induction (P := fun r => Numbered r.history) ?_ ?_ requests
  · intro time e handle he
    simp [start] at he
  · intro before request hn
    exact numbered_step (sound_of before) (counted_of before) hn request

theorem recorded_of (requests : List MountRequest) : (of requests).Recorded := by
  refine of_induction ?_ ?_ requests
  · intro handle archive priority
    constructor
    · intro hmem
      simp [start, MountTable.empty] at hmem
    · rintro ⟨time, huse⟩
      have hmounted := huse.mounted
      simp [start] at hmounted
  · intro before request hr
    exact recorded_step (sound_of before) hr request

theorem toMount_mem {requests : List MountRequest} {m : RecordedMount}
    (huse : InUse (of requests).history m) : m.toMount ∈ (of requests).table.mounts :=
  (recorded_of requests m.handle m.archive m.priority).mpr ⟨m.time, huse⟩

theorem exists_inUse {requests : List MountRequest} {m : Mount}
    (hm : m ∈ (of requests).table.mounts) :
    ∃ record, InUse (of requests).history record ∧ record.toMount = m := by
  rcases m with ⟨handle, archive, priority, order⟩
  have horder : handle = order := (sound_of requests).handle_eq _ hm
  subst order
  obtain ⟨time, huse⟩ := (recorded_of requests handle archive priority).mp hm
  exact ⟨⟨time, handle, archive, priority⟩, huse, rfl⟩

theorem issued?_of_inUse {history : List MountEvent} {m : RecordedMount}
    (huse : InUse history m) :
    ∃ e, history[m.time]? = some e ∧ e.issued? = some m.handle :=
  ⟨_, huse.mounted, rfl⟩

theorem eq_of_toMount_eq {requests : List MountRequest} {a b : RecordedMount}
    (ha : InUse (of requests).history a) (hb : InUse (of requests).history b)
    (h : a.toMount = b.toMount) : a = b := by
  obtain ⟨e, he, hissued⟩ := issued?_of_inUse ha
  obtain ⟨f, hf, hissued'⟩ := issued?_of_inUse hb
  rcases a with ⟨time, handle, archive, priority⟩
  rcases b with ⟨time', handle', archive', priority'⟩
  cases h
  have htime : time = time' := (numbered_of requests).time_eq he hf hissued hissued'
  rw [htime]

/-- Handles grow with time, so the table and the history rank alike. -/
theorem outranks_toMount_iff {requests : List MountRequest} {a b : RecordedMount}
    (ha : InUse (of requests).history a) (hb : InUse (of requests).history b) :
    a.toMount.outranks b.toMount = true ↔ a.Outranks b := by
  obtain ⟨e, he, hissued⟩ := issued?_of_inUse ha
  obtain ⟨f, hf, hissued'⟩ := issued?_of_inUse hb
  have hlater : b.handle < a.handle ↔ b.time < a.time := by
    constructor
    · intro hlt
      rcases Nat.lt_trichotomy b.time a.time with h | h | h
      · exact h
      · rw [h, he] at hf
        cases hf
        rw [hissued, Option.some.injEq] at hissued'
        omega
      · have := (numbered_of requests).handle_lt he hf hissued hissued' h
        omega
    · exact (numbered_of requests).handle_lt hf he hissued' hissued
  rw [Mount.outranks_iff]
  simp only [RecordedMount.toMount, RecordedMount.Outranks, hlater]

/-- All that is in use according to the history, the highest rank first, is what the table
holds. -/
theorem exists_records (requests : List MountRequest) :
    ∃ records : List RecordedMount,
      records.map RecordedMount.toMount = (of requests).table.mounts ∧
      (∀ m, m ∈ records ↔ InUse (of requests).history m) ∧
      records.Pairwise RecordedMount.Outranks := by
  have hall : ∀ m : Mount, ∃ record : RecordedMount, m ∈ (of requests).table.mounts →
      InUse (of requests).history record ∧ record.toMount = m := by
    intro m
    by_cases hm : m ∈ (of requests).table.mounts
    · obtain ⟨record, huse, heq⟩ := exists_inUse hm
      exact ⟨record, fun _ => ⟨huse, heq⟩⟩
    · -- Which record stands for a mount outside the table does not matter.
      exact ⟨⟨0, m.handle, m.archive, m.priority⟩, fun h => absurd h hm⟩
  choose record hrecord using hall
  refine ⟨(of requests).table.mounts.map record, ?_, ?_, ?_⟩
  · rw [List.map_map]
    calc
      (of requests).table.mounts.map (RecordedMount.toMount ∘ record) =
          (of requests).table.mounts.map id :=
        List.map_congr_left fun m hm => (hrecord m hm).2
      _ = (of requests).table.mounts := List.map_id _
  · intro m
    constructor
    · intro hm
      obtain ⟨mount, hmount, rfl⟩ := List.mem_map.mp hm
      exact (hrecord mount hmount).1
    · intro huse
      have hmem := toMount_mem huse
      obtain ⟨huse', heq⟩ := hrecord m.toMount hmem
      rw [← eq_of_toMount_eq huse' huse heq]
      exact List.mem_map_of_mem hmem
  · rw [List.pairwise_map]
    refine (sound_of requests).ranked.imp_of_mem ?_
    intro a b ha hb hrank
    obtain ⟨hause, haeq⟩ := hrecord a ha
    obtain ⟨hbuse, hbeq⟩ := hrecord b hb
    rw [← outranks_toMount_iff hause hbuse, haeq, hbeq]
    exact hrank

theorem handle_lt_nextOrder {requests : List MountRequest} {e : MountEvent} {handle : Nat}
    (he : e ∈ (of requests).history) (hissued : e.issued? = some handle) :
    handle < (of requests).table.nextOrder := by
  obtain ⟨time, htime⟩ := List.mem_iff_getElem?.mp he
  have hupto := List.take_append_drop time (of requests).history
  have hmount : 0 < ((of requests).history.drop time).countP MountEvent.isMount := by
    rw [List.countP_pos_iff]
    refine ⟨e, ?_, MountEvent.isMount_of_issued? hissued⟩
    exact List.mem_of_getElem? (i := 0) (by simpa using htime)
  rw [numbered_of requests time e handle htime hissued, (counted_of requests).nextOrder_eq]
  conv_rhs => rw [← hupto, List.countP_append]
  omega

section Answers

variable (requests : List MountRequest)

theorem answer_mount (archive : Archive) (priority : Int) :
    (∃ m, InUse (of requests).history m ∧ m.archive.id.named archive.id.name = true ∧
      (of requests).table.answer (.mount archive priority) =
        .error (.duplicateMount archive.id)) ∨
    ((∀ m, InUse (of requests).history m → ¬ m.archive.id.named archive.id.name = true) ∧
      (of requests).table.answer (.mount archive priority) =
        .ok (.mounted (of requests).table.nextOrder)) := by
  cases hfind : (of requests).table.find? archive.id.name with
  | none =>
      refine .inr ⟨?_, ?_⟩
      · intro m huse
        exact MountTable.find?_eq_none_iff.mp hfind m.toMount (toMount_mem huse)
      · rw [MountTable.answer, MountTable.perform_mount_of_free hfind]
        rfl
  | some m =>
      obtain ⟨hm, hname⟩ := MountTable.mem_of_find? hfind
      obtain ⟨record, huse, rfl⟩ := exists_inUse hm
      refine .inl ⟨record, huse, hname, ?_⟩
      rw [MountTable.answer, MountTable.perform_mount_of_taken (by simp [hfind])]
      rfl

theorem answer_unmount (handle : Nat) :
    (∃ m, InUse (of requests).history m ∧ m.handle = handle ∧
      (of requests).table.answer (.unmount handle) = .ok (.unmounted m.archive)) ∨
    ((∀ m, InUse (of requests).history m → m.handle ≠ handle) ∧
      (of requests).table.answer (.unmount handle) = .error (.unknownMount handle)) := by
  cases hget : (of requests).table.get? handle with
  | none =>
      refine .inr ⟨?_, ?_⟩
      · rintro m huse rfl
        have hsome := (sound_of requests).get?_handle (toMount_mem huse)
        change (of requests).table.get? m.handle = _ at hsome
        rw [hget] at hsome
        cases hsome
      · rw [MountTable.answer, MountTable.perform_unmount_of_unknown hget]
        rfl
  | some m =>
      obtain ⟨hm, hhandle⟩ := MountTable.mem_of_get? hget
      obtain ⟨record, huse, rfl⟩ := exists_inUse hm
      refine .inl ⟨record, huse, hhandle, ?_⟩
      rw [MountTable.answer, MountTable.perform_unmount_of_get? hget]
      rfl

theorem answer_unmountNamed (name : String) :
    (∃ m, InUse (of requests).history m ∧ m.archive.id.named name = true ∧
      (of requests).table.answer (.unmountNamed name) = .ok (.unmounted m.archive)) ∨
    ((∀ m, InUse (of requests).history m → ¬ m.archive.id.named name = true) ∧
      (of requests).table.answer (.unmountNamed name) = .error (.notMounted ⟨name⟩)) := by
  cases hfind : (of requests).table.find? name with
  | none =>
      refine .inr ⟨?_, ?_⟩
      · intro m huse
        exact MountTable.find?_eq_none_iff.mp hfind m.toMount (toMount_mem huse)
      · rw [MountTable.answer, MountTable.perform_unmountNamed_of_unknown hfind]
        rfl
  | some m =>
      obtain ⟨hm, hname⟩ := MountTable.mem_of_find? hfind
      obtain ⟨record, huse, rfl⟩ := exists_inUse hm
      refine .inl ⟨record, huse, hname, ?_⟩
      rw [MountTable.answer, (sound_of requests).perform_unmountNamed hfind]
      rfl

end Answers

/-- The answer to each further request is decided by what is in use according to the history, of
two alternatives always exactly one; no handle is given out twice, and a request that fails changes
nothing. -/
theorem next_answer (requests : List MountRequest) :
    let t := (of requests).table
    let history := (of requests).history
    (∀ archive priority,
      (∃ m, InUse history m ∧ m.archive.id.named archive.id.name = true ∧
        t.answer (.mount archive priority) = .error (.duplicateMount archive.id)) ∨
      ((∀ m, InUse history m → ¬ m.archive.id.named archive.id.name = true) ∧
        ∃ handle, t.answer (.mount archive priority) = .ok (.mounted handle) ∧
          ∀ e ∈ history, e.issued? ≠ some handle)) ∧
    (∀ handle,
      (∃ m, InUse history m ∧ m.handle = handle ∧
        t.answer (.unmount handle) = .ok (.unmounted m.archive)) ∨
      ((∀ m, InUse history m → m.handle ≠ handle) ∧
        t.answer (.unmount handle) = .error (.unknownMount handle))) ∧
    (∀ name,
      (∃ m, InUse history m ∧ m.archive.id.named name = true ∧
        t.answer (.unmountNamed name) = .ok (.unmounted m.archive)) ∨
      ((∀ m, InUse history m → ¬ m.archive.id.named name = true) ∧
        t.answer (.unmountNamed name) = .error (.notMounted ⟨name⟩))) ∧
    (∀ (i j : Nat) (e f : MountEvent) (handle : Nat),
      history[i]? = some e → history[j]? = some f →
      e.issued? = some handle → f.issued? = some handle → i = j) ∧
    (∀ request e, t.answer request = .error e → t.after request = t) := by
  intro t history
  refine ⟨?_, answer_unmount requests, answer_unmountNamed requests, ?_, ?_⟩
  · intro archive priority
    rcases answer_mount requests archive priority with htaken | ⟨hfree, hanswer⟩
    · exact .inl htaken
    · refine .inr ⟨hfree, t.nextOrder, hanswer, ?_⟩
      intro e he hissued
      exact Nat.lt_irrefl _ (handle_lt_nextOrder he hissued)
  · intro i j e f handle he hf hi hj
    exact (numbered_of requests).time_eq he hf hi hj
  · intro request e hanswer
    cases hperform : t.perform request with
    | error fault => simp [MountTable.after, hperform]
    | ok result => simp [MountTable.answer, hperform, Except.map] at hanswer

end MountRun

end ArchiveOverlay
