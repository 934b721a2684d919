import ArchiveOverlay.Proofs.Export.Schedule
import ArchiveOverlay.Proofs.Export.Writing

namespace ArchiveOverlay

theorem Archive.source_ne_cancelled (a : Archive) (d : Disk) (handle : Nat) :
    a.source d handle ≠ .error .cancelled := by
  rw [a.source_eq]
  cases a.backing with
  | directory root files =>
      rw [Backing.sourceSeen]
      split
      · simp
      · split <;> simp
  | zip reader container =>
      rw [Backing.sourceSeen]
      split
      · simp
      · rw [memberSource]
        split
        · simp
        · split
          · simp
          · split <;> simp
      · simp
  | memory contents =>
      rw [Backing.sourceSeen]
      split <;> simp

namespace Resolved

theorem extract_ne_cancelled (r : Resolved) (d : Disk) (verify : Bool) :
    (r.extract d verify (.unlimited false) ()).1 ≠ .error .cancelled := by
  have hsource := r.archive.source_ne_cancelled d r.entry.handle
  rw [extract]
  cases hread : r.archive.source d r.entry.handle with
  | error e =>
      rw [hread] at hsource
      simpa [deliver] using hsource
  | ok source => exact r.stream_ne_cancelled verify source

theorem isOk_extract {r : Resolved} {d : Disk} {verify : Bool} :
    (r.extract d verify (.unlimited false) ()).1.isOk = true ↔
      ∃ content, r.extractBytes d verify false = .ok content := by
  rw [extractBytes]
  rcases r.extract d verify (.unlimited false) () with ⟨result, o⟩
  cases result with
  | error e => simp [Except.isOk, Except.toBool]
  | ok n => simp [Except.isOk, Except.toBool]

end Resolved

/-- That names go on where others end. -/
def Begins (front names : List String) : Prop :=
  front <+: names ∧ front ≠ names

instance (front names : List String) : Decidable (Begins front names) :=
  inferInstanceAs (Decidable (_ ∧ _))

/-- That one of two rows of names goes on where the other one ends. -/
def Nested (names names' : List String) : Prop :=
  Begins names names' ∨ Begins names' names

/-- A file of an export that has been handled. -/
structure ExportAttempt where
  task : ExportTask
  /-- Whether nothing was in its way. -/
  free : Bool
  result : Except Error Nat

namespace ExportAttempt

def target (a : ExportAttempt) : ExportTarget :=
  a.task.target

def names (a : ExportAttempt) : List String :=
  a.target.names

end ExportAttempt

/-- The files of an export in the order in which they have been handled. -/
abbrev ExportLog := List ExportAttempt

namespace ExportLog

/-- That a file cannot be put under some names any more: another one has been written where a
directory around it would have to be, or there is a directory for another one where the file would
have to be. -/
def Obstructs (log : ExportLog) (names : List String) : Prop :=
  ∃ a ∈ log, a.result.isOk = true ∧ Begins a.names names ∨ a.free = true ∧ Begins names a.names

/-- What can become of files one after the other: what is in the way makes one fail, and otherwise
it fares as it would alone. -/
inductive Possible (d : Disk) (verify : Bool) : ExportLog → Prop where
  | nil : Possible d verify []
  | obstructed {log : ExportLog} {task : ExportTask} {fault : IoFault}
      (hlog : Possible d verify log) (h : Obstructs log task.target.names) :
      Possible d verify (log ++ [⟨task, false, .error (.io fault)⟩])
  | free {log : ExportLog} {task : ExportTask} (hlog : Possible d verify log)
      (h : ¬ Obstructs log task.target.names) :
      Possible d verify
        (log ++ [⟨task, true, (task.target.file.extract d verify (.unlimited false) ()).1⟩])

/-- Under which names files were tried with nothing in the way, and the content that was written,
if any. -/
def tried (d : Disk) (verify : Bool) (log : ExportLog) : List (List String × Option ByteArray) :=
  (log.filter ExportAttempt.free).map fun a =>
    (a.names, (a.target.file.extractBytes d verify false).toOption)

section

variable {d : Disk} {verify : Bool} {log front rest : ExportLog} {a b : ExportAttempt}

/-- What became of a file was decided by those before it. -/
theorem Possible.split (h : Possible d verify log) (hlog : log = front ++ a :: rest) :
    a.free = false ∧ Obstructs front a.names ∧ (∃ fault, a.result = .error (.io fault)) ∨
      a.free = true ∧ ¬ Obstructs front a.names ∧
        a.result = (a.target.file.extract d verify (.unlimited false) ()).1 := by
  induction h generalizing rest with
  | nil => simp at hlog
  | @obstructed before task fault _ hobstructs ih =>
      rcases List.eq_nil_or_concat' rest with rfl | ⟨rest, last, rfl⟩
      · obtain ⟨rfl, hlast⟩ := List.append_inj' hlog rfl
        obtain rfl := (List.cons.inj hlast).1
        exact .inl ⟨rfl, hobstructs, fault, rfl⟩
      · rw [← List.cons_append, ← List.append_assoc] at hlog
        exact ih (List.append_inj' hlog rfl).1
  | @free before task _ hfree ih =>
      rcases List.eq_nil_or_concat' rest with rfl | ⟨rest, last, rfl⟩
      · obtain ⟨rfl, hlast⟩ := List.append_inj' hlog rfl
        obtain rfl := (List.cons.inj hlast).1
        exact .inr ⟨rfl, hfree, rfl⟩
      · rw [← List.cons_append, ← List.append_assoc] at hlog
        exact ih (List.append_inj' hlog rfl).1

theorem Possible.ne_cancelled (h : Possible d verify log) (ha : a ∈ log) :
    a.result ≠ .error .cancelled := by
  obtain ⟨front, rest, hlog⟩ := List.append_of_mem ha
  rcases h.split hlog with ⟨-, -, fault, hresult⟩ | ⟨-, -, hresult⟩
  · simp [hresult]
  · rw [hresult]
    exact Resolved.extract_ne_cancelled a.target.file d verify

/-- A file is written if nothing was in its way and it can be extracted. -/
theorem Possible.isOk_iff (h : Possible d verify log) (ha : a ∈ log) :
    a.result.isOk = true ↔
      a.free = true ∧ ∃ content, a.target.file.extractBytes d verify false = .ok content := by
  obtain ⟨front, rest, hlog⟩ := List.append_of_mem ha
  rcases h.split hlog with ⟨hfree, -, fault, hresult⟩ | ⟨hfree, -, hresult⟩
  · simp [hfree, hresult, Except.isOk, Except.toBool]
  · rw [hresult, hfree, Resolved.isOk_extract]
    simp

theorem Possible.not_free_iff (h : Possible d verify log) (hlog : log = front ++ a :: rest) :
    a.free = false ↔ Obstructs front a.names := by
  rcases h.split hlog with ⟨hfree, hobstructs, -⟩ | ⟨hfree, hobstructs, -⟩
  · simp [hfree, hobstructs]
  · simp [hfree, hobstructs]

/-- Of two files in each other's way only one has been written. -/
theorem Possible.apart (h : Possible d verify log) (ha : a ∈ log) (hb : b ∈ log)
    (hwritten : a.result.isOk = true) (hwritten' : b.result.isOk = true) :
    ¬ Begins a.names b.names := by
  intro hbegins
  obtain ⟨front, rest, hlog⟩ := List.append_of_mem ha
  rw [hlog, List.mem_append, List.mem_cons] at hb
  have hfree := ((h.isOk_iff ha).mp hwritten).1
  rcases hb with hb | rfl | hb
  · have hfree' := ((h.isOk_iff (hlog ▸ List.mem_append_left _ hb)).mp hwritten').1
    have hobstructs := (h.not_free_iff hlog).mpr ⟨b, hb, .inr ⟨hfree', hbegins⟩⟩
    simp [hfree] at hobstructs
  · exact hbegins.2 rfl
  · obtain ⟨middle, more, rfl⟩ := List.append_of_mem hb
    rw [← List.cons_append, ← List.append_assoc] at hlog
    have hfree' := ((h.isOk_iff (by simp [hlog])).mp hwritten').1
    have hobstructs := (h.not_free_iff hlog).mpr ⟨a, by simp, .inl ⟨hwritten, hbegins⟩⟩
    simp [hfree'] at hobstructs

theorem mem_tried {names : List String} {content : ByteArray} :
    (names, some content) ∈ log.tried d verify ↔
      ∃ a ∈ log, a.free = true ∧ a.names = names ∧
        a.target.file.extractBytes d verify false = .ok content := by
  rw [tried, List.mem_map]
  constructor
  · rintro ⟨a, ha, heq⟩
    obtain ⟨hlog, hfree⟩ := List.mem_filter.mp ha
    obtain ⟨hnames, hcontent⟩ := Prod.mk.inj heq
    refine ⟨a, hlog, hfree, hnames, ?_⟩
    cases hbytes : a.target.file.extractBytes d verify false with
    | error e => simp [hbytes, Except.toOption] at hcontent
    | ok found => simpa [hbytes, Except.toOption] using hcontent
  · rintro ⟨a, hlog, hfree, rfl, hbytes⟩
    exact ⟨a, List.mem_filter.mpr ⟨hlog, hfree⟩, by rw [hbytes]; rfl⟩

theorem exists_of_mem_tried {attempt : List String × Option ByteArray}
    (h : attempt ∈ log.tried d verify) : ∃ a ∈ log, a.free = true ∧ a.names = attempt.1 := by
  obtain ⟨a, ha, rfl⟩ := List.mem_map.mp h
  obtain ⟨hlog, hfree⟩ := List.mem_filter.mp ha
  exact ⟨a, hlog, hfree, rfl⟩

theorem mem_tried_of_free (ha : a ∈ log) (hfree : a.free = true) :
    (a.names, (a.target.file.extractBytes d verify false).toOption) ∈ log.tried d verify :=
  List.mem_map.mpr ⟨a, List.mem_filter.mpr ⟨ha, hfree⟩, rfl⟩

end

end ExportLog

/-- What an export needs to handle a file. -/
structure ExportTarget.Ready (t : ExportTarget) (archives : List Archive) (destination : String) :
    Prop where
  named : t.names ≠ []
  path : t.path destination = t.names.foldl HostPath.join destination
  fits : Disk.Fits destination t.names
  archive : t.file.archive ∈ archives

theorem ExportTarget.path_eq {t : ExportTarget} {destination : String} (hne : t.names ≠ [])
    (h : ∀ name ∈ t.names, Ordinary name) (hdestination : destination ≠ "") :
    t.path destination = t.names.foldl HostPath.join destination := by
  obtain ⟨name, rest, hnames⟩ := List.exists_cons_of_ne_nil hne
  rw [hnames] at h
  have hname := h name (by simp)
  rw [path, hnames, List.foldl_cons, List.foldl_cons, HostPath.join_empty,
    HostPath.join_foldl_join hdestination (HostPath.isAbsolute_ordinary hname)
      (HostPath.EndsInName.of_ordinary hname) fun other hother => h other (by simp [hother])]

namespace ExportState

/-- An export on its way, with its log. -/
structure Logged {σ : Type} (s : ExportState σ) (good : σ → Prop) (archives : List Archive)
    (d made : Disk) (place : Location) (verify : Bool) (log : ExportLog) : Prop where
  state : good s.state
  tried : s.Tried archives d made place (log.tried d verify)
  results : ∀ a ∈ log, s.results a.task.index = some a.result
  possible : ExportLog.Possible d verify log
  named : ∀ a ∈ log, a.names ≠ []

section

variable {σ : Type} {archives : List Archive} {d made : Disk} {destination : String}
  {place : Location} {options : ExportOptions σ} {good : σ → Prop} {verify : Bool}
  {log : ExportLog} {s : ExportState σ} {task : ExportTask}

/-- That the directories around a file are still to be made, or are there. -/
theorem Logged.free (h : s.Logged good archives d made place verify log)
    (hground : ExportGround archives d made destination place)
    {front : List String} {name : String}
    (hfree : ¬ log.Obstructs (front ++ [name])) : s.disk.Free place front := by
  intro names hne hbegins
  cases hnode : s.disk.node? (place ++ names) with
  | none =>
      rw [h.tried.disk.outside.rights]
      exact .inl ⟨rfl, (hground.rights names hne).1⟩
  | some node =>
      cases node with
      | directory => exact .inr rfl
      | link target => exact absurd hnode (h.tried.disk.link names target hne)
      | file id =>
          have hmem := (h.tried.disk.file names _ hne).mp (Disk.content?_of_node? hnode)
          obtain ⟨a, ha, hafree, rfl, hbytes⟩ := ExportLog.mem_tried.mp hmem
          have hwritten := (h.possible.isOk_iff ha).mpr ⟨hafree, _, hbytes⟩
          refine absurd ⟨a, ha, .inl ⟨hwritten, hbegins.trans (List.prefix_append _ _), ?_⟩⟩ hfree
          intro heq
          rw [heq] at hbegins
          simpa using hbegins.length_le

/-- That nothing is where a file goes, if nothing is in its way and no other file has the same
names. -/
theorem Logged.vacant (h : s.Logged good archives d made place verify log) {names : List String}
    (hne : names ≠ []) (hfree : ¬ log.Obstructs names) (hnew : ∀ a ∈ log, a.names ≠ names) :
    s.disk.node? (place ++ names) = none := by
  cases hnode : s.disk.node? (place ++ names) with
  | none => rfl
  | some node =>
      cases node with
      | link target => exact absurd hnode (h.tried.disk.link names target hne)
      | file id =>
          have hmem := (h.tried.disk.file names _ hne).mp (Disk.content?_of_node? hnode)
          obtain ⟨a, ha, -, hnames, -⟩ := ExportLog.mem_tried.mp hmem
          exact absurd hnames (hnew a ha)
      | directory =>
          obtain ⟨attempt, hattempt, hbegins⟩ := (h.tried.disk.directory names hne).mp hnode
          obtain ⟨a, ha, hafree, hnames⟩ := ExportLog.exists_of_mem_tried hattempt
          rw [← hnames] at hbegins
          exact absurd ⟨a, ha, .inr ⟨hafree, hbegins⟩⟩ hfree

/-- One file of an export: what is in the way fails it, and otherwise it fares as it would
alone. -/
theorem Logged.exists_writeFile (h : s.Logged good archives d made place options.verify log)
    (hground : ExportGround archives d made destination place)
    (ht : task.target.Ready archives destination) (hoptions : options.Unhindered good)
    (hnew : ∀ a ∈ log, a.names ≠ task.target.names) :
    ∃ s' free result,
      s.writeFile options task.job task.target.file (task.target.path destination) = (s', result) ∧
      s'.results = s.results ∧ good s'.state ∧
      s'.Tried archives d made place
        (ExportLog.tried d options.verify (log ++ [⟨task, free, result⟩])) ∧
      ExportLog.Possible d options.verify (log ++ [⟨task, free, result⟩]) := by
  obtain ⟨hne, hpath, hfits, harchive⟩ := ht
  rw [hpath]
  by_cases hobstructs : log.Obstructs task.target.names
  · have hrefused : ∃ fault, s.writeFile options task.job task.target.file
        (task.target.names.foldl HostPath.join destination) = (s, .error (.io fault)) := by
      obtain ⟨a, ha, ⟨hok, hbegins, hproper⟩ | ⟨hfree, hbegins, hproper⟩⟩ := hobstructs
      · obtain ⟨hfree, content, hbytes⟩ := (h.possible.isOk_iff ha).mp hok
        exact writeFile_blocked h.tried hground hfits
          (ExportLog.mem_tried.mpr ⟨a, ha, hfree, rfl, hbytes⟩) (h.named a ha) hbegins hproper
          _ _ _
      · exact writeFile_occupied h.tried hground hfits (ExportLog.mem_tried_of_free ha hfree) hne
          hbegins hproper _ _ _
    obtain ⟨fault, hwrite⟩ := hrefused
    refine ⟨s, false, _, hwrite, rfl, h.state, ?_, .obstructed h.possible hobstructs⟩
    rw [ExportLog.tried, List.filter_append]
    simpa [ExportLog.tried] using h.tried
  · obtain ⟨front, name, hnames⟩ := (List.eq_nil_or_concat' task.target.names).resolve_left hne
    have hnone := h.vacant hne hobstructs hnew
    have hfree : s.disk.Free place front := h.free hground (hnames ▸ hobstructs)
    rw [hnames] at hfits hnone
    obtain ⟨s', hwrite, hresults, hstate, htried⟩ :=
      ExportState.exists_writeFile h.tried hground hfits harchive hfree hnone
        hoptions h.state task.job
    rw [← hnames] at hwrite htried
    refine ⟨s', true, _, hwrite, hresults, hstate, ?_, .free h.possible hobstructs⟩
    rw [ExportLog.tried, List.filter_append, List.map_append]
    exact htried

theorem Logged.step (h : s.Logged good archives d made place options.verify log)
    (hground : ExportGround archives d made destination place)
    (ht : task.target.Ready archives destination) (hoptions : options.Unhindered good)
    (hnew : ∀ a ∈ log, a.names ≠ task.target.names ∧ a.task.index ≠ task.index) (total : Nat) :
    ∃ a : ExportAttempt, a.task = task ∧
      (s.exportFile options destination total task).Logged good archives d made place
        options.verify (log ++ [a]) := by
  obtain ⟨hgoes, hpolled⟩ := hoptions.sink.poll s.state h.state
  have hpoll : options.sink.poll s.state =
      (false, (options.sink.poll s.state).2) := by rw [← hgoes]
  generalize (options.sink.poll s.state).2 = state at hpoll hpolled
  have hstart :
      ({ s with state } : ExportState σ).Logged good archives d made place options.verify log :=
    ⟨hpolled, ⟨h.tried.disk, h.tried.caches⟩, h.results, h.possible, h.named⟩
  obtain ⟨s', free, result, hwrite, hresults, hstate, htried, hpossible⟩ :=
    hstart.exists_writeFile hground ht hoptions fun a ha => (hnew a ha).1
  refine ⟨⟨task, free, result⟩, rfl, ?_⟩
  rw [exportFile_written hpoll hwrite]
  refine ⟨hoptions.report _ _ hstate, ⟨htried.disk, htried.caches⟩, ?_, hpossible, ?_⟩
  · intro a ha
    rcases List.mem_append.mp ha with ha | ha
    · simp only [record, if_neg (hnew a ha).2, hresults, h.results a ha]
    · rw [List.mem_singleton.mp ha]
      simp [record]
  · intro a ha
    rcases List.mem_append.mp ha with ha | ha
    · exact h.named a ha
    · rw [List.mem_singleton.mp ha]
      exact ht.named

theorem Logged.start (hground : ExportGround archives d made destination place) {state : σ}
    (hstate : good state) (verify : Bool) :
    (ExportState.start made state).Logged good archives d made place verify [] where
  state := hstate
  tried := ⟨.of_vacant hground.vacant, fun _ => ContainerCache.sound_nil archives d⟩
  results := fun a ha => by cases ha
  possible := .nil
  named := fun a ha => by cases ha

theorem Logged.run (h : s.Logged good archives d made place options.verify log)
    (hground : ExportGround archives d made destination place) (hoptions : options.Unhindered good)
    {tasks : List ExportTask} (hready : ∀ task ∈ tasks, task.target.Ready archives destination)
    (hnames : (log.map ExportAttempt.names ++ tasks.map fun task => task.target.names).Nodup)
    (hindices : (log.map (fun a => a.task.index) ++ tasks.map ExportTask.index).Nodup)
    (total : Nat) :
    ∃ more : ExportLog, more.map ExportAttempt.task = tasks ∧
      (s.after options destination total tasks).Logged good archives d made place options.verify
        (log ++ more) := by
  induction tasks generalizing s log with
  | nil => exact ⟨[], rfl, by rwa [List.append_nil]⟩
  | cons task tasks ih =>
      have hnew : ∀ a ∈ log, a.names ≠ task.target.names ∧ a.task.index ≠ task.index := fun a ha =>
        ⟨(List.nodup_append.mp hnames).2.2 _ (List.mem_map_of_mem ha) _ (by simp),
          (List.nodup_append.mp hindices).2.2 a.task.index
          (List.mem_map.mpr ⟨a, ha, rfl⟩) _ (by simp)⟩
      obtain ⟨a, rfl, hstep⟩ := h.step hground (hready task (by simp)) hoptions hnew total
      obtain ⟨more, hmore, hrun⟩ := ih hstep (fun other hother => hready other (by simp [hother]))
        (by simpa [ExportAttempt.names, ExportAttempt.target] using hnames)
        (by simpa using hindices)
      rw [List.append_assoc] at hrun
      exact ⟨a :: more, by rw [List.map_cons, hmore], hrun⟩

variable {targets : List ExportTarget} {schedule : Schedule targets.length}

theorem Logged.mem_inOrder (h : s.Logged good archives d made place verify log)
    (hlog : log.map ExportAttempt.task = schedule.tasks targets) {path : Path}
    {result : Except Error Nat} :
    (path, result) ∈ s.inOrder targets ↔
      ∃ a ∈ log, a.target.file.path = path ∧ a.result = result := by
  rw [ExportState.mem_inOrder]
  constructor
  · rintro ⟨index, t, ht, hpath, hresult⟩
    obtain ⟨task, htask, rfl⟩ := schedule.exists_task (List.getElem?_eq_some_iff.mp ht).1
    have htarget := schedule.getElem?_index htask
    rw [← hlog] at htask
    obtain ⟨a, ha, rfl⟩ := List.mem_map.mp htask
    obtain rfl := Option.some.inj (ht.symm.trans htarget)
    exact ⟨a, ha, hpath, Option.some.inj ((h.results a ha).symm.trans hresult)⟩
  · rintro ⟨a, ha, hpath, rfl⟩
    have htask : a.task ∈ schedule.tasks targets := hlog ▸ List.mem_map_of_mem ha
    exact ⟨a.task.index, a.target, schedule.getElem?_index htask, hpath, h.results a ha⟩

/-- In the end something has become of every file. -/
theorem Logged.exists_result (h : s.Logged good archives d made place verify log)
    (hlog : log.map ExportAttempt.task = schedule.tasks targets) (index : Nat)
    (hindex : index < targets.length) : ∃ result, s.results index = some result := by
  obtain ⟨task, htask, rfl⟩ := schedule.exists_task hindex
  rw [← hlog] at htask
  obtain ⟨a, ha, rfl⟩ := List.mem_map.mp htask
  exact ⟨a.result, h.results a ha⟩

end

end ExportState

end ArchiveOverlay
