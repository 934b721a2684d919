import ArchiveOverlay.Proofs.Export.Cancellation

namespace ArchiveOverlay

namespace Resolved

variable {σ : Type} {r : Resolved} {verify : Bool} {sink : Sink σ} {state : σ} {n : Nat}

theorem size_of_deliver {source : Except Error Source}
    (h : (r.deliver verify source sink state).1 = .ok n) : n = r.entry.size := by
  cases source with
  | error e => cases h
  | ok source =>
      obtain ⟨result, final, events, hstreams, -, hbare⟩ :=
        r.stream_journaled verify source sink state
      rw [deliver, hbare] at h
      obtain rfl : result = .ok n := h
      exact hstreams.of_ok.1

end Resolved

namespace ExportState

variable {σ : Type} {s : ExportState σ} {options : ExportOptions σ} {destination : String}
  {task : ExportTask} {found : List Resolved} {n : Nat}

/-- Only a file of its recorded size is ever written. -/
theorem size_of_verdict (h : s.verdict options destination task = .ok n) :
    n = task.target.file.entry.size := by
  rw [verdict] at h
  split at h
  · cases h
  next state _ =>
    rw [writeFile] at h
    split at h
    · cases h
    · exact Resolved.size_of_deliver h

theorem verdict_of_goes (hgoes : s.verdict options destination task ≠ .error .cancelled) :
    (options.sink.poll s.state).1 = false ∧
      s.verdict options destination task =
        (({ s with state := (options.sink.poll s.state).2 } : ExportState σ).writeFile options
          task.job task.target.file (task.target.path destination)).2 := by
  rw [verdict] at hgoes ⊢
  rcases hpoll : options.sink.poll s.state with ⟨cancelled, state⟩
  rw [hpoll] at hgoes
  cases cancelled with
  | true => exact absurd rfl hgoes
  | false => exact ⟨rfl, rfl⟩

/-- The files of an export, and what became of each. -/
def rows (s : ExportState σ) (found : List Resolved) : List (Resolved × Except Error Nat) :=
  found.zipIdx.map fun p => (p.1, (s.results p.2).getD (.error .cancelled))

theorem map_fst_rows (s : ExportState σ) (found : List Resolved) :
    (s.rows found).map Prod.fst = found := by
  rw [rows, List.map_map]
  exact List.zipIdx_map_fst 0 found

theorem map_path_rows (s : ExportState σ) (found : List Resolved) :
    ((s.rows found).map fun row => row.1.path) = found.map Resolved.path := by
  conv_rhs => rw [← s.map_fst_rows found, List.map_map]
  rfl

theorem inOrder_eq_rows {target : Resolved → ExportTarget} (htarget : ∀ r, (target r).file = r)
    (h : ∀ index, index < found.length → ∃ result, s.results index = some result) :
    s.inOrder (found.map target) = (s.rows found).map fun row => (row.1.path, row.2) := by
  have hverdict : ∀ index, index < (found.map target).length →
      s.results index = some ((s.results index).getD (.error .cancelled)) := by
    intro index hindex
    rw [List.length_map] at hindex
    obtain ⟨result, hresult⟩ := h index hindex
    simp [hresult]
  rw [inOrder_eq hverdict, rows, List.zipIdx_map, List.map_map, List.map_map]
  simp [Function.comp_def, htarget]

section

variable {target : Resolved → ExportTarget} {schedule : Schedule (found.map target).length}
  {front rest : List ExportTask} {total : Nat}

theorem getElem?_found (htarget : ∀ r, (target r).file = r)
    (hturn : schedule.tasks (found.map target) = front ++ task :: rest) :
    found[task.index]? = some task.target.file := by
  have htask : task ∈ schedule.tasks (found.map target) := by simp [hturn]
  have hindex := schedule.getElem?_index htask
  rw [List.getElem?_map] at hindex
  obtain ⟨r, hr, hself⟩ := Option.map_eq_some_iff.mp hindex
  rw [hr, ← hself, htarget]

theorem results_of_turn (hturn : schedule.tasks (found.map target) = front ++ task :: rest) :
    (s.after options destination total (schedule.tasks (found.map target))).results task.index =
      some ((s.after options destination total front).verdict options destination task) := by
  have hnodup := schedule.indices_nodup
  rw [hturn] at hnodup ⊢
  exact results_after hnodup

/-- Each row tells what became of a file when its turn came. -/
theorem mem_rows_iff (htarget : ∀ r, (target r).file = r) {row : Resolved × Except Error Nat} :
    row ∈ (s.after options destination total (schedule.tasks (found.map target))).rows found ↔
      ∃ front task rest, schedule.tasks (found.map target) = front ++ task :: rest ∧
        row = (task.target.file,
          (s.after options destination total front).verdict options destination task) := by
  rw [rows, List.mem_map]
  constructor
  · rintro ⟨⟨r, index⟩, hmem, rfl⟩
    have hr := List.mk_mem_zipIdx_iff_getElem?.mp hmem
    have hindex := (List.getElem?_eq_some_iff.mp hr).1
    obtain ⟨front, task, rest, hturn, rfl⟩ := schedule.exists_turn (by simpa using hindex)
    rw [getElem?_found htarget hturn] at hr
    refine ⟨front, task, rest, hturn, ?_⟩
    rw [results_of_turn hturn, ← Option.some.inj hr, Option.getD_some]
  · rintro ⟨front, task, rest, hturn, rfl⟩
    refine ⟨(task.target.file, task.index),
      List.mk_mem_zipIdx_iff_getElem?.mpr (getElem?_found htarget hturn), ?_⟩
    rw [results_of_turn hturn, Option.getD_some]

theorem inOrder_after (htarget : ∀ r, (target r).file = r) :
    (s.after options destination total (schedule.tasks (found.map target))).inOrder
        (found.map target) =
      ((s.after options destination total (schedule.tasks (found.map target))).rows found).map
        fun row => (row.1.path, row.2) := by
  apply inOrder_eq_rows htarget
  intro index hindex
  obtain ⟨front, task, rest, hturn, rfl⟩ := schedule.exists_turn (by simpa using hindex)
  exact ⟨_, results_of_turn hturn⟩

end

end ExportState

namespace ExportSummary

variable {destination : String} {summary : ExportSummary}
  {rows : List (Resolved × Except Error Nat)} {row : Resolved × Except Error Nat}

theorem ofResults_cons {path : Path} {result : Except Error Nat}
    {results : List (Path × Except Error Nat)}
    (h : ofResults destination ((path, result) :: results) = .ok summary) :
    ∃ rest, ofResults destination results = .ok rest ∧
      ((∃ n, result = .ok n ∧
          summary = { rest with
            filesWritten := rest.filesWritten + 1
            bytesWritten := n + rest.bytesWritten }) ∨
        ∃ e, result = .error e ∧
          summary = { rest with failures := ⟨path, e⟩ :: rest.failures }) := by
  rw [ofResults] at h
  split at h
  · cases h
  next hnone =>
    cases h
    rw [List.any_cons, Bool.or_eq_true, not_or] at hnone
    refine ⟨_, if_neg hnone.2, ?_⟩
    cases result with
    | ok n => exact .inl ⟨n, rfl, by simp [Except.isOk, Except.toBool]⟩
    | error e => exact .inr ⟨e, rfl, by simp [Except.isOk, Except.toBool]⟩

/-- Being cancelled outweighs everything, so with a summary every file was tried. -/
theorem ne_cancelled_of_ofResults (hrow : row ∈ rows)
    (h : ofResults destination (rows.map fun row => (row.1.path, row.2)) = .ok summary) :
    row.2 ≠ .error .cancelled := by
  intro hcancelled
  have hlisted : (row.1.path, .error .cancelled) ∈ rows.map fun row => (row.1.path, row.2) := by
    rw [← hcancelled]
    exact List.mem_map_of_mem hrow
  have hstopped : ofResults destination _ = .error .cancelled :=
    ofResults_cancelled_iff.mpr ⟨_, hlisted⟩
  rw [h] at hstopped
  cases hstopped

/-- A summary of what became of some files. -/
structure SumsUp (summary : ExportSummary) (rows : List (Resolved × Except Error Nat)) : Prop where
  length : summary.filesWritten + summary.failures.length = rows.length
  sublist : (summary.failures.map ExportFailure.path).Sublist (rows.map fun row => row.1.path)
  failures : ∀ failure, failure ∈ summary.failures ↔
    ∃ row ∈ rows, row.1.path = failure.path ∧ row.2 = .error failure.error
  bytes : summary.bytesWritten =
    ((rows.filter fun row => row.2.isOk).map fun row => row.1.entry.size).foldr (· + ·) 0

theorem SumsUp.nil (h : ofResults destination [] = .ok summary) : summary.SumsUp [] := by
  cases h
  exact ⟨rfl, List.Sublist.refl _, by simp, rfl⟩

theorem SumsUp.written (h : summary.SumsUp rows) (r : Resolved) :
    { summary with
      filesWritten := summary.filesWritten + 1
      bytesWritten := r.entry.size + summary.bytesWritten }.SumsUp
        ((r, .ok r.entry.size) :: rows) where
  length := by
    have hlength := h.length
    simp only [List.length_cons]
    omega
  sublist := h.sublist.cons _
  failures := by simpa using h.failures
  bytes := by simp [h.bytes, Except.isOk, Except.toBool]

theorem SumsUp.failed (h : summary.SumsUp rows) (r : Resolved) (e : Error) :
    { summary with failures := ⟨r.path, e⟩ :: summary.failures }.SumsUp
      ((r, .error e) :: rows) where
  length := by
    have hlength := h.length
    simp only [List.length_cons]
    omega
  sublist := h.sublist.cons_cons _
  failures := by
    intro failure
    rw [List.mem_cons, h.failures, List.exists_mem_cons_iff]
    refine or_congr_left ?_
    constructor
    · rintro rfl
      exact ⟨rfl, rfl⟩
    · rintro ⟨hpath, herror⟩
      rcases failure with ⟨path, error⟩
      obtain rfl : r.path = path := hpath
      obtain rfl : e = error := Except.error.inj herror
      rfl
  bytes := by simpa [Except.isOk, Except.toBool] using h.bytes

theorem sumsUp_of_ofResults (hsizes : ∀ row ∈ rows, ∀ n, row.2 = .ok n → n = row.1.entry.size)
    (h : ofResults destination (rows.map fun row => (row.1.path, row.2)) = .ok summary) :
    summary.SumsUp rows := by
  induction rows generalizing summary with
  | nil => exact SumsUp.nil h
  | cons row rows ih =>
      obtain ⟨rest, hrest, hsummary⟩ := ofResults_cons h
      have hrows := ih (fun row hrow => hsizes row (List.mem_cons_of_mem _ hrow)) hrest
      rcases row with ⟨r, result⟩
      rcases hsummary with ⟨n, hn, rfl⟩ | ⟨e, he, rfl⟩
      · dsimp only at hn
        obtain rfl := hsizes _ List.mem_cons_self n hn
        rw [hn]
        exact hrows.written r
      · dsimp only at he
        rw [he]
        exact hrows.failed r e

/-- What became of a file can be read off the summary if no other one has its path. -/
theorem SumsUp.mem_failures_iff (h : summary.SumsUp rows)
    (hpaths : (rows.map fun row => row.1.path).Nodup) (hrow : row ∈ rows) (e : Error) :
    ⟨row.1.path, e⟩ ∈ summary.failures ↔ row.2 = .error e := by
  rw [h.failures]
  constructor
  · rintro ⟨other, hother, hpath, herror⟩
    rwa [List.inj_on_of_nodup_map hpaths hother hrow hpath] at herror
  · exact fun herror => ⟨row, hrow, rfl, herror⟩

theorem SumsUp.isOk_iff (h : summary.SumsUp rows) (hpaths : (rows.map fun row => row.1.path).Nodup)
    (hrow : row ∈ rows) :
    row.2.isOk = true ↔ row.1.path ∉ summary.failures.map ExportFailure.path := by
  have hfailed : row.1.path ∈ summary.failures.map ExportFailure.path ↔ ∃ e, row.2 = .error e := by
    rw [List.mem_map]
    constructor
    · rintro ⟨⟨path, e⟩, hfailure, rfl⟩
      exact ⟨e, (h.mem_failures_iff hpaths hrow e).mp hfailure⟩
    · rintro ⟨e, herror⟩
      exact ⟨⟨row.1.path, e⟩, (h.mem_failures_iff hpaths hrow e).mpr herror, rfl⟩
  rw [hfailed]
  cases row.2 with
  | ok n => simp [Except.isOk, Except.toBool]
  | error e => simp [Except.isOk, Except.toBool]

/-- The bytes are those of the files without a failure. -/
theorem SumsUp.bytes_eq (h : summary.SumsUp rows)
    (hpaths : (rows.map fun row => row.1.path).Nodup) :
    summary.bytesWritten = (((rows.map Prod.fst).filter fun r =>
      r.path ∉ summary.failures.map ExportFailure.path).map fun r => r.entry.size).foldr
        (· + ·) 0 := by
  have hfilter : rows.filter (fun row => row.2.isOk) =
      rows.filter (fun row => row.1.path ∉ summary.failures.map ExportFailure.path) := by
    apply List.filter_congr
    intro row hrow
    rw [Bool.eq_iff_iff, decide_eq_true_iff]
    exact h.isOk_iff hpaths hrow
  rw [h.bytes, hfilter, List.filter_map, List.map_map]
  rfl

end ExportSummary

namespace Overlay

variable {σ : Type} {o : Overlay} {d : Disk} {options : ExportOptions σ} {state : σ}
  {schedule : (total : Nat) → Schedule total} {raw destination : String} {dir : Path}
  {found : List Resolved} {summary : ExportSummary}

/-- An export ends with a summary only if there was a directory to walk and one to fill. -/
theorem exists_walk_of_exportTree
    (h : (o.exportTree d options state schedule raw destination).result = .ok summary) :
    ∃ dir found made, Path.parse raw = .ok dir ∧ o.walk raw = .ok found ∧
      d.makeDirectories destination = (made, .ok ()) := by
  rw [exportTree, parsePath] at h
  rw [walk, parsePath]
  cases hparse : Path.parse raw with
  | error fault =>
      rw [hparse] at h
      cases h
  | ok dir =>
      simp only [hparse, Except.mapError, bind, Except.bind, pure, Except.pure] at h ⊢
      cases hwalk : o.walkPath dir with
      | error e =>
          rw [hwalk] at h
          cases h
      | ok found =>
          rcases hmade : d.makeDirectories destination with ⟨made, outcome⟩
          cases outcome with
          | error fault =>
              rw [hwalk, hmade] at h
              cases h
          | ok _ => exact ⟨dir, found, made, rfl, rfl, rfl⟩

theorem paths_ascending_of_walk (hparse : Path.parse raw = .ok dir)
    (hwalk : o.walk raw = .ok found) :
    (found.map Resolved.path).Pairwise fun p q => Text.bytes p.text < Text.bytes q.text := by
  rw [eq_allBelow_of_walk hparse hwalk, List.pairwise_map]
  exact (o.allBelow_ascending dir).imp Text.bytes_lt_iff.mpr

theorem paths_nodup_of_walk (hparse : Path.parse raw = .ok dir) (hwalk : o.walk raw = .ok found) :
    (found.map Resolved.path).Nodup := by
  apply (paths_ascending_of_walk hparse hwalk).imp
  rintro p _ hlt rfl
  exact String.lt_irrefl _ (Text.bytes_lt_iff.mp hlt)

end Overlay

/-- The accounts of an export that ends with a summary. Each file that a walk finds is written or
is a failure; failures stand in the order of the walk, by their paths, and the bytes are the
recorded sizes of all other files. Files are reported as they are handled, each in its turn, and a
file is a failure exactly if it could not be written when its turn came. -/
theorem export_accounts {σ : Type} (t : MountTable) {d : Disk} {options : ExportOptions σ}
    {state : σ} {schedule : (total : Nat) → Schedule total} {raw destination : String}
    {summary : ExportSummary}
    (h : (t.overlay.exportTree d options state schedule raw destination).result = .ok summary) :
    ∃ dir found made, Path.parse raw = .ok dir ∧ t.overlay.walk raw = .ok found ∧
      d.makeDirectories destination = (made, .ok ()) ∧
      let o := t.overlay
      let targets := found.map (o.exportTarget dir)
      let tasks := (schedule targets.length).tasks targets
      let reached := (ExportState.start made state).after options destination targets.length
      let progress := (o.exportTree d options state schedule raw destination).progress
      let failed := summary.failures.map ExportFailure.path
      summary.filesWritten + summary.failures.length = found.length ∧
      failed.Sublist (found.map Resolved.path) ∧
      failed.Pairwise (fun p q => Text.bytes p.text < Text.bytes q.text) ∧
      summary.bytesWritten =
        ((found.filter fun r => r.path ∉ failed).map fun r => r.entry.size).foldr (· + ·) 0 ∧
      (tasks.map ExportTask.target).Perm targets ∧
      progress = tasks.zipIdx.map (fun p =>
        ⟨p.1.target.file.entry.display.text, p.2 + 1, found.length⟩) ∧
      ((schedule targets.length).InPathOrder → progress = found.zipIdx.map fun p =>
        ⟨p.1.entry.display.text, p.2 + 1, found.length⟩) ∧
      ∀ front task rest, tasks = front ++ task :: rest → ∀ e,
        (⟨task.target.file.path, e⟩ ∈ summary.failures ↔
          (({ reached front with
              state := (options.sink.poll (reached front).state).2 } : ExportState σ).writeFile
              options task.job task.target.file (task.target.path destination)).2 = .error e) := by
  obtain ⟨dir, found, made, hparse, hwalk, hmade⟩ := Overlay.exists_walk_of_exportTree h
  refine ⟨dir, found, made, hparse, hwalk, hmade, ?_⟩
  intro o targets tasks reached progress failed
  have houtcome := Overlay.exportTree_eq options state schedule hparse hwalk hmade
  have hsummary := congrArg ExportOutcome.result houtcome
  rw [h, ExportState.inOrder_after fun _ => rfl] at hsummary
  have hrow : ∀ front task rest, tasks = front ++ task :: rest →
      (task.target.file, (reached front).verdict options destination task) ∈
        (reached tasks).rows found := fun front task rest hturn =>
    (ExportState.mem_rows_iff fun _ => rfl).mpr ⟨front, task, rest, hturn, rfl⟩
  have hgoes : ∀ front task rest, tasks = front ++ task :: rest →
      (reached front).verdict options destination task ≠ .error .cancelled :=
    fun front task rest hturn =>
      ExportSummary.ne_cancelled_of_ofResults (hrow front task rest hturn) hsummary.symm
  have hsizes : ∀ row ∈ (reached tasks).rows found, ∀ n, row.2 = .ok n → n = row.1.entry.size := by
    intro row hmem n hn
    obtain ⟨front, task, rest, -, rfl⟩ := (ExportState.mem_rows_iff fun _ => rfl).mp hmem
    exact ExportState.size_of_verdict hn
  have hsums := ExportSummary.sumsUp_of_ofResults hsizes hsummary.symm
  have hpaths := (reached tasks).map_path_rows found
  have hdistinct := Overlay.paths_nodup_of_walk hparse hwalk
  rw [← hpaths] at hdistinct
  have hsublist := hsums.sublist
  rw [hpaths] at hsublist
  have hprogress : progress = tasks.zipIdx.map (fun p =>
      ⟨p.1.target.file.entry.display.text, p.2 + 1, targets.length⟩) := by
    refine (congrArg ExportOutcome.progress houtcome).trans (ExportState.progress_after ?_)
    intro front task rest hsplit
    exact (ExportState.verdict_of_goes (hgoes front task rest hsplit)).1
  refine ⟨?_, hsublist, (Overlay.paths_ascending_of_walk hparse hwalk).sublist hsublist, ?_,
    (schedule targets.length).targets_perm, ?_, ?_, ?_⟩
  · rw [hsums.length, ExportState.rows, List.length_map, List.length_zipIdx]
  · have hbytes := hsums.bytes_eq hdistinct
    rwa [ExportState.map_fst_rows] at hbytes
  · rw [hprogress, List.length_map]
  · intro horder
    rw [hprogress, ExportState.reports_eq (fun _ => rfl)
      ((schedule targets.length).targets_of_inPathOrder horder), List.length_map]
  · intro front task rest hsplit e
    rw [← (ExportState.verdict_of_goes (hgoes front task rest hsplit)).2]
    exact hsums.mem_failures_iff hdistinct (hrow front task rest hsplit) e

/-- Three files, of which the second is not as long as it should be. -/
theorem export_accounts_short_file : ∃ a first second third,
    Archive.build ⟨"a.zip"⟩ (.memory [⟨#[120]⟩, ⟨#[121, 122]⟩])
      [⟨"a", 1, Digest.xxh3 ⟨#[120]⟩, 0⟩, ⟨"b", 2, 0, 0⟩, ⟨"c", 2, Digest.xxh3 ⟨#[121, 122]⟩, 1⟩] =
        .ok a ∧
    (MountRun.of [.mount a 0]).table.overlay.walk "" = .ok [first, second, third] ∧
    let outcome := (MountRun.of [.mount a 0]).table.overlay.exportTree .blank (.plain true)
      () .halves "" "/out"
    ∃ summary, outcome.result = .ok summary ∧
      (∃ e, ⟨second.path, e⟩ ∈ summary.failures) ∧
      summary.filesWritten + summary.failures.length = 3 ∧ summary.bytesWritten = 3 ∧
      outcome.progress = [⟨"a", 1, 3⟩, ⟨"b", 2, 3⟩, ⟨"c", 3, 3⟩] := by
  have hload : ∃ a first second third,
      Archive.build ⟨"a.zip"⟩ (.memory [⟨#[120]⟩, ⟨#[121, 122]⟩])
        [⟨"a", 1, Digest.xxh3 ⟨#[120]⟩, 0⟩, ⟨"b", 2, 0, 0⟩,
          ⟨"c", 2, Digest.xxh3 ⟨#[121, 122]⟩, 1⟩] = .ok a ∧
      (∀ b ∈ (MountRun.of [.mount a 0]).table.overlay.archives, b.backing.paths = []) ∧
      (MountRun.of [.mount a 0]).table.overlay.walk "" = .ok [first, second, third] ∧
      [first, second, third].map (fun r => r.entry.display.text) = ["a", "b", "c"] ∧
      [first, second, third].map (fun r =>
        ((MountRun.of [.mount a 0]).table.overlay.exportTarget .root r).names) =
          [["a"], ["b"], ["c"]] ∧
      [first, second, third].map (fun r => r.entry.size) = [1, 2, 2] ∧
      [first, second, third].map (fun r => r.archive.source .blank r.entry.handle) =
        [.ok (.ofContent ⟨#[120]⟩), .ok (.ofContent ⟨#[120]⟩), .ok (.ofContent ⟨#[121, 122]⟩)] ∧
      first.entry.checksum = Digest.xxh3 ⟨#[120]⟩ ∧
        third.entry.checksum = Digest.xxh3 ⟨#[121, 122]⟩ :=
    ⟨_, _, _, _, rfl, List.forall_mem_singleton.mpr rfl, rfl, rfl, rfl, rfl, rfl, rfl, rfl⟩
  obtain ⟨a, first, second, third, hbuild, hpaths, hwalk, htexts, hnames, hsizes, hsources,
    hchecksum, hchecksum'⟩ := hload
  refine ⟨a, first, second, third, hbuild, hwalk, ?_⟩
  have hsound := MountRun.sound_of [.mount a 0]
  generalize (MountRun.of [.mount a 0]).table = t at hpaths hwalk hnames hsound ⊢
  simp only [List.map_cons, List.map_nil, List.cons.injEq,
    and_true] at htexts hnames hsizes hsources
  obtain ⟨ha, hb, hc⟩ := hnames
  have hparse : Path.parse "" = .ok .root := rfl
  have hdir := Path.canonical_of_parse hparse
  have hfound := Overlay.eq_allBelow_of_walk hparse hwalk
  obtain ⟨made, hmade, hvacant⟩ := Disk.exists_vacant_out
  obtain ⟨hcontents, hallowed⟩ := Disk.blank.makeDirectoriesFrom_files (HostPath.ancestors "/out")
  rw [← Disk.makeDirectories, hmade] at hcontents hallowed
  have hground : ExportGround t.overlay.archives .blank made "/out" ["out"] :=
    ⟨hvacant, fun b hb path hpath => by simp [hpaths b hb] at hpath,
      fun _ ha _ hb hid => hsound.archive_eq ha hb hid, hcontents,
      fun _ _ => by rw [hallowed]; exact ⟨rfl, rfl⟩⟩
  have hready : ∀ r ∈ t.overlay.allBelow .root,
      (t.overlay.exportTarget .root r).Ready t.overlay.archives "/out" := by
    have hfits : ∀ r ∈ t.overlay.allBelow .root,
        (∀ name ∈ (t.overlay.exportTarget .root r).names, name.utf8ByteSize ≤ Disk.maxNameSize) ∧
          ((t.overlay.exportTarget .root r).path "/out").utf8ByteSize < Disk.pathLimit := by
      rw [← hfound]
      simp only [List.forall_mem_cons, ExportTarget.path, ha, hb, hc]
      exact ⟨by decide, by decide, by decide, by simp⟩
    intro r hr
    exact Overlay.ready_of_mem hdir hr (by decide) (hfits r hr).1 (hfits r hr).2
  obtain ⟨summary, log, -, hexported⟩ : ∃ summary log, _ ∧
      t.overlay.Exported .blank made ["out"] true .root
        (t.overlay.exportTree .blank (.plain true) () .halves "" "/out") summary log :=
    Overlay.exists_exported (ExportOptions.unhindered_plain true) trivial .halves hparse hwalk
      hmade hground hready
  -- No file is one of the directories around another one.
  have hapart : ∀ r ∈ t.overlay.allBelow .root, ∀ r' ∈ t.overlay.allBelow .root,
      ¬ Nested (t.overlay.exportTarget .root r').names (t.overlay.exportTarget .root r).names := by
    rw [← hfound]
    simp only [List.forall_mem_cons, ha, hb, hc]
    simp [Nested, Begins]
  have hfirst : first.path ∉ summary.failures.map ExportFailure.path :=
    hexported.not_mem_failures hdir (by simp [← hfound])
      ⟨_, Resolved.extractBytes_of_content hsources.1 hsizes.1 hchecksum true⟩
      (hapart first (by simp [← hfound]))
  have hthird : third.path ∉ summary.failures.map ExportFailure.path :=
    hexported.not_mem_failures hdir (by simp [← hfound])
      ⟨_, Resolved.extractBytes_of_content hsources.2.2 hsizes.2.2 hchecksum' true⟩
      (hapart third (by simp [← hfound]))
  have hsecond : second.path ∈ summary.failures.map ExportFailure.path := by
    by_contra hwritten
    obtain ⟨content, hbytes, -⟩ := hexported.fileContent_eq hdir hvacant (by simp [← hfound])
      (hready second (by simp [← hfound])) hwritten
    exact Resolved.extractBytes_of_short hsources.2.1 (by simp [hsizes, ByteArray.size]) true _
      hbytes
  obtain ⟨dir, found, made', -, hwalk', -, hcount, -, -, hsum, -, -, hprogress, -⟩ :=
    export_accounts t hexported.result
  obtain rfl := Except.ok.inj (hwalk.symm.trans hwalk')
  refine ⟨summary, hexported.result, ?_, hcount, ?_, ?_⟩
  · obtain ⟨⟨path, e⟩, hmem, hpath⟩ := List.mem_map.mp hsecond
    exact ⟨e, hpath ▸ hmem⟩
  · rw [hsum, List.filter_cons_of_pos (by simpa using hfirst),
      List.filter_cons_of_neg (by simpa using hsecond),
      List.filter_cons_of_pos (by simpa using hthird)]
    simp [hsizes]
  · rw [hprogress (Schedule.inPathOrder_halves _)]
    simp [htexts]

end ArchiveOverlay
