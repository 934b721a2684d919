import ArchiveOverlay.Export
import Mathlib.Data.List.Induction
import Mathlib.Data.List.Nodup

namespace ArchiveOverlay

theorem filterMap_getElem?_range {α : Type} (row : List α) :
    (List.range row.length).filterMap (row[·]?) = row := by
  induction row using List.reverseRecOn with
  | nil => rfl
  | append_singleton row last ih =>
      have hsame : (List.range row.length).filterMap ((row ++ [last])[·]?) =
          (List.range row.length).filterMap (row[·]?) := by
        apply List.filterMap_congr
        intro index hindex
        exact List.getElem?_append_left (List.mem_range.mp hindex)
      rw [List.length_append, List.length_singleton, List.range_succ,
        List.filterMap_append, hsame, ih]
      simp

namespace Schedule

/-- That the files are handled in the order of their paths. -/
def InPathOrder {total : Nat} (schedule : Schedule total) : Prop :=
  schedule.steps.map Prod.fst = List.range total

theorem inPathOrder_halves (total : Nat) : (halves total).InPathOrder := by
  simp [InPathOrder, halves, Function.comp_def]

variable {targets : List ExportTarget} (schedule : Schedule targets.length)

theorem map_target_tasks :
    (schedule.tasks targets).map ExportTask.target =
      (schedule.steps.map Prod.fst).filterMap (targets[·]?) := by
  rw [tasks, List.map_filterMap, List.filterMap_map]
  apply List.filterMap_congr
  rintro ⟨index, job⟩ _
  simp [Option.map_map, Function.comp_def]

/-- Every file is handled once. -/
theorem targets_perm : ((schedule.tasks targets).map ExportTask.target).Perm targets := by
  have hperm := schedule.complete.filterMap (targets[·]?)
  rwa [filterMap_getElem?_range, ← map_target_tasks] at hperm

theorem targets_of_inPathOrder (h : schedule.InPathOrder) :
    (schedule.tasks targets).map ExportTask.target = targets := by
  rw [map_target_tasks, h, filterMap_getElem?_range]

theorem map_index_tasks :
    (schedule.tasks targets).map ExportTask.index = schedule.steps.map Prod.fst := by
  have hsome : ∀ step ∈ schedule.steps, (targets[step.1]?).map (fun _ => step.1) =
      some step.1 := by
    intro step hstep
    have hindex := schedule.complete.subset (List.mem_map_of_mem hstep)
    rw [List.getElem?_eq_getElem (List.mem_range.mp hindex), Option.map_some]
  rw [tasks, List.map_filterMap, ← List.filterMap_eq_map]
  apply List.filterMap_congr
  rintro ⟨index, job⟩ hstep
  simpa [Option.map_map, Function.comp_def] using hsome _ hstep

theorem indices_nodup : ((schedule.tasks targets).map ExportTask.index).Nodup := by
  rw [map_index_tasks]
  exact schedule.complete.nodup_iff.mpr List.nodup_range

theorem getElem?_index {task : ExportTask} (h : task ∈ schedule.tasks targets) :
    targets[task.index]? = some task.target := by
  obtain ⟨⟨index, job⟩, -, htask⟩ := List.mem_filterMap.mp h
  obtain ⟨t, ht, rfl⟩ := Option.map_eq_some_iff.mp htask
  exact ht

theorem exists_task {index : Nat} (h : index < targets.length) :
    ∃ task ∈ schedule.tasks targets, task.index = index := by
  have hmem := schedule.complete.symm.subset (List.mem_range.mpr h)
  rw [← map_index_tasks] at hmem
  exact List.mem_map.mp hmem

/-- Every file has its turn. -/
theorem exists_turn {index : Nat} (h : index < targets.length) :
    ∃ front task rest, schedule.tasks targets = front ++ task :: rest ∧ task.index = index := by
  obtain ⟨task, htask, hindex⟩ := schedule.exists_task h
  obtain ⟨front, rest, hsplit⟩ := List.append_of_mem htask
  exact ⟨front, task, rest, hsplit, hindex⟩

end Schedule

namespace ExportState

/-- The state of an export after some files. -/
def after {σ : Type} (s : ExportState σ) (options : ExportOptions σ) (destination : String)
    (total : Nat) (tasks : List ExportTask) : ExportState σ :=
  tasks.foldl (fun s task => s.exportFile options destination total task) s

variable {σ : Type} {s : ExportState σ} {targets : List ExportTarget}

theorem exportFile_cancelled {options : ExportOptions σ} {state : σ}
    (hpoll : options.sink.poll s.state = (true, state)) (destination : String) (total : Nat)
    (task : ExportTask) :
    s.exportFile options destination total task =
      ({ s with state } : ExportState σ).record task.index (.error .cancelled) := by
  rw [exportFile, hpoll]

theorem exportFile_written {options : ExportOptions σ} {destination : String} {task : ExportTask}
    {state : σ} {s' : ExportState σ} {result : Except Error Nat}
    (hpoll : options.sink.poll s.state = (false, state))
    (hwrite : ({ s with state } : ExportState σ).writeFile options task.job task.target.file
      (task.target.path destination) = (s', result)) (total : Nat) :
    s.exportFile options destination total task =
      let report : ExportProgress :=
        ⟨task.target.file.entry.display.text, s'.progress.length + 1, total⟩
      ({ s' with
        state := options.report report s'.state
        progress := s'.progress ++ [report] } : ExportState σ).record task.index result := by
  rw [exportFile, hpoll]
  dsimp only
  rw [hwrite]

theorem writeFile_kept (s : ExportState σ) (options : ExportOptions σ) (job : Nat) (r : Resolved)
    (path : String) :
    (s.writeFile options job r path).1.progress = s.progress ∧
      (s.writeFile options job r path).1.results = s.results := by
  rw [writeFile]
  split
  · exact ⟨rfl, rfl⟩
  · exact ⟨rfl, rfl⟩

theorem after_cons (s : ExportState σ) (options : ExportOptions σ) (destination : String)
    (total : Nat) (task : ExportTask) (rest : List ExportTask) :
    s.after options destination total (task :: rest) =
      (s.exportFile options destination total task).after options destination total rest :=
  rfl

theorem after_append (s : ExportState σ) (options : ExportOptions σ) (destination : String)
    (total : Nat) (front rest : List ExportTask) :
    s.after options destination total (front ++ rest) =
      (s.after options destination total front).after options destination total rest := by
  rw [after, List.foldl_append]
  rfl

theorem after_concat (s : ExportState σ) (options : ExportOptions σ) (destination : String)
    (total : Nat) (tasks : List ExportTask) (task : ExportTask) :
    s.after options destination total (tasks ++ [task]) =
      (s.after options destination total tasks).exportFile options destination total task :=
  after_append s options destination total tasks [task]

/-- What becomes of a file when its turn comes. -/
def verdict (s : ExportState σ) (options : ExportOptions σ) (destination : String)
    (task : ExportTask) : Except Error Nat :=
  match options.sink.poll s.state with
  | (true, _) => .error .cancelled
  | (false, state) =>
    ({ s with state }.writeFile options task.job task.target.file
      (task.target.path destination)).2

theorem results_exportFile (s : ExportState σ) (options : ExportOptions σ) (destination : String)
    (total : Nat) (task : ExportTask) (index : Nat) :
    (s.exportFile options destination total task).results index =
      if index = task.index then some (s.verdict options destination task)
      else s.results index := by
  rw [verdict]
  rcases hpoll : options.sink.poll s.state with ⟨cancelled, state⟩
  cases cancelled with
  | true =>
      rw [exportFile_cancelled hpoll]
      rfl
  | false =>
      have hkept := (writeFile_kept { s with state } options task.job task.target.file
        (task.target.path destination)).2
      rcases hwrite : ({ s with state } : ExportState σ).writeFile options task.job
        task.target.file (task.target.path destination) with ⟨s', result⟩
      rw [hwrite] at hkept
      rw [exportFile_written hpoll hwrite, record]
      dsimp only
      rw [hwrite, show s'.results = s.results from hkept]

/-- What became of a file stays while others are handled. -/
theorem results_after_of_notMem {options : ExportOptions σ} {destination : String} {total : Nat}
    {tasks : List ExportTask} {index : Nat} (h : index ∉ tasks.map ExportTask.index) :
    (s.after options destination total tasks).results index = s.results index := by
  induction tasks generalizing s with
  | nil => rfl
  | cons task rest ih =>
      rw [List.map_cons, List.mem_cons, not_or] at h
      rw [after_cons, ih h.2, results_exportFile, if_neg h.1]

/-- In the end there is for each file what became of it when its turn came. -/
theorem results_after {options : ExportOptions σ} {destination : String} {total : Nat}
    {front rest : List ExportTask} {task : ExportTask}
    (hnodup : ((front ++ task :: rest).map ExportTask.index).Nodup) :
    (s.after options destination total (front ++ task :: rest)).results task.index =
      some ((s.after options destination total front).verdict options destination task) := by
  rw [List.map_append, List.map_cons, List.nodup_append, List.nodup_cons] at hnodup
  rw [after_append, after_cons, results_after_of_notMem hnodup.2.1.1,
    results_exportFile, if_pos rfl]

theorem progress_exportFile {options : ExportOptions σ} {task : ExportTask}
    (hgoes : (options.sink.poll s.state).1 = false) (destination : String) (total : Nat) :
    (s.exportFile options destination total task).progress =
      s.progress ++ [⟨task.target.file.entry.display.text, s.progress.length + 1, total⟩] := by
  rcases hpoll : options.sink.poll s.state with ⟨cancelled, state⟩
  rw [hpoll] at hgoes
  obtain rfl : cancelled = false := hgoes
  have hkept := (writeFile_kept { s with state } options task.job task.target.file
    (task.target.path destination)).1
  rcases hwrite : ({ s with state } : ExportState σ).writeFile options task.job task.target.file
    (task.target.path destination) with ⟨s', result⟩
  rw [hwrite] at hkept
  rw [exportFile_written hpoll hwrite, record]
  dsimp only
  rw [show s'.progress = s.progress from hkept]

/-- As long as it is not cancelled, an export reports every file in its turn. -/
theorem progress_after {options : ExportOptions σ} {destination : String} {total : Nat}
    {tasks : List ExportTask}
    (hgoes : ∀ front task rest, tasks = front ++ task :: rest →
      (options.sink.poll (s.after options destination total front).state).1 = false) :
    (s.after options destination total tasks).progress =
      s.progress ++ (tasks.zipIdx s.progress.length).map fun p =>
        ⟨p.1.target.file.entry.display.text, p.2 + 1, total⟩ := by
  induction tasks generalizing s with
  | nil => simp [after]
  | cons task rest ih =>
      have hfirst : (options.sink.poll s.state).1 = false := hgoes [] task rest rfl
      have hstep : (s.exportFile options destination total task).progress = _ :=
        progress_exportFile hfirst destination total
      have hrest := ih (s := s.exportFile options destination total task) (by
        rintro front other more rfl
        exact hgoes (task :: front) other more rfl)
      rw [hstep] at hrest
      rw [after_cons, hrest]
      simp

/-- Reports name the files that were handled. -/
theorem reports_eq {tasks : List ExportTask} {found : List Resolved}
    {target : Resolved → ExportTarget} (htarget : ∀ r, (target r).file = r)
    (h : tasks.map ExportTask.target = found.map target) (total : Nat) :
    (tasks.zipIdx.map fun p =>
      (⟨p.1.target.file.entry.display.text, p.2 + 1, total⟩ : ExportProgress)) =
        found.zipIdx.map fun p => ⟨p.1.entry.display.text, p.2 + 1, total⟩ := by
  have hzip : tasks.zipIdx.map (Prod.map ExportTask.target id) =
      found.zipIdx.map (Prod.map target id) := by
    rw [← List.zipIdx_map, h, List.zipIdx_map]
  have hreports := congrArg (List.map fun p : ExportTarget × Nat =>
    (⟨p.1.file.entry.display.text, p.2 + 1, total⟩ : ExportProgress)) hzip
  simpa only [List.map_map, Function.comp_def, Prod.map, id, htarget] using hreports

theorem inOrder_eq {verdict : Nat → Except Error Nat}
    (h : ∀ index, index < targets.length → s.results index = some (verdict index)) :
    s.inOrder targets = targets.zipIdx.map fun numbered =>
      (numbered.1.file.path, verdict numbered.2) := by
  rw [inOrder, ← List.filterMap_eq_map]
  apply List.filterMap_congr
  rintro ⟨t, index⟩ hmem
  have hindex := List.snd_lt_of_mem_zipIdx hmem
  rw [Nat.add_zero] at hindex
  simp [h index hindex]

theorem map_fst_inOrder
    (h : ∀ index, index < targets.length → ∃ result, s.results index = some result) :
    (s.inOrder targets).map Prod.fst = targets.map fun t => t.file.path := by
  have hverdict : ∀ index, index < targets.length →
      s.results index = some ((s.results index).getD (.ok 0)) := by
    intro index hindex
    obtain ⟨result, hresult⟩ := h index hindex
    simp [hresult]
  rw [inOrder_eq hverdict, List.map_map]
  nth_rewrite 2 [← List.zipIdx_map_fst 0 targets]
  rw [List.map_map]
  rfl

theorem mem_inOrder {path : Path} {result : Except Error Nat} :
    (path, result) ∈ s.inOrder targets ↔
      ∃ index t, targets[index]? = some t ∧ t.file.path = path ∧
        s.results index = some result := by
  rw [inOrder, List.mem_filterMap]
  constructor
  · rintro ⟨⟨t, index⟩, hmem, hresult⟩
    obtain ⟨found, hfound, heq⟩ := Option.map_eq_some_iff.mp hresult
    obtain ⟨rfl, rfl⟩ := Prod.mk.inj heq
    exact ⟨index, t, List.mem_zipIdx_iff_getElem?.mp hmem, rfl, hfound⟩
  · rintro ⟨index, t, ht, rfl, hresult⟩
    exact ⟨(t, index), List.mem_zipIdx_iff_getElem?.mpr ht, by simp [hresult]⟩

end ExportState

namespace ExportSummary

theorem failures_sublist (results : List (Path × Except Error Nat)) :
    ((results.filterMap fun (path, result) =>
      match result with
      | .error error => some (⟨path, error⟩ : ExportFailure)
      | .ok _ => none).map ExportFailure.path).Sublist (results.map Prod.fst) := by
  induction results with
  | nil => exact List.Sublist.refl _
  | cons first results ih =>
      rcases first with ⟨path, result⟩
      cases result with
      | ok n => exact ih.cons _
      | error e => exact ih.cons_cons _

/-- An export that was not cancelled is summed up, with the files that failed. -/
theorem exists_ofResults (destination : String) {results : List (Path × Except Error Nat)}
    (h : ∀ path result, (path, result) ∈ results → result ≠ .error .cancelled) :
    ∃ summary, ofResults destination results = .ok summary ∧
      (summary.failures.map ExportFailure.path).Sublist (results.map Prod.fst) ∧
      ∀ path, path ∈ summary.failures.map ExportFailure.path ↔
        ∃ result, (path, result) ∈ results ∧ ¬ result.isOk = true := by
  rw [ofResults, if_neg]
  · refine ⟨_, rfl, failures_sublist results, fun path => ?_⟩
    simp only [List.mem_map, List.mem_filterMap]
    constructor
    · rintro ⟨failure, ⟨⟨path, result⟩, hmem, hfailure⟩, rfl⟩
      cases result with
      | ok n => simp at hfailure
      | error e =>
          cases hfailure
          exact ⟨.error e, hmem, by simp [Except.isOk, Except.toBool]⟩
    · rintro ⟨result, hmem, hfailed⟩
      cases result with
      | ok n => exact absurd rfl hfailed
      | error e => exact ⟨⟨path, e⟩, ⟨_, hmem, rfl⟩, rfl⟩
  · rw [List.any_eq_true]
    rintro ⟨⟨path, result⟩, hmem, hcancelled⟩
    refine h path result hmem ?_
    dsimp only at hcancelled
    split at hcancelled
    · rfl
    · cases hcancelled

end ExportSummary

end ArchiveOverlay
