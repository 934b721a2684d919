import ArchiveOverlay.Proofs.Export.Preservation
import ArchiveOverlay.Proofs.Extract.Damage

namespace ArchiveOverlay

/-- Extracts a file into a sink, with containers kept open. -/
def Resolved.extractShared {σ : Type} (r : Resolved) (cache : ContainerCache) (d : Disk)
    (verify : Bool) (sink : Sink σ) (state : σ) : (Except Error Nat × Outlet σ) × ContainerCache :=
  let (source, cache) := cache.source d r.archive r.entry.handle
  (r.deliver verify source sink state, cache)

namespace ContainerCache

/-- The caches that come of reading files of some archives, one after the other and each to
whatever end, while the containers are as on a given disk. -/
inductive Reached (archives : List Archive) (d : Disk) : ContainerCache → Prop
  | empty : Reached archives d []
  | read {σ : Type} {cache : ContainerCache} {s : Disk} {r : Resolved} (verify : Bool)
      (sink : Sink σ) (state : σ) : Reached archives d cache → s.SameContainers d archives →
      r.archive ∈ archives →
      Reached archives d (r.extractShared cache s verify sink state).2

variable {archives : List Archive} {d s : Disk} {cache : ContainerCache} {r : Resolved}

/-- One reading gives what it gives on its own, and leaves a cache that can be used again. -/
theorem extractShared_spec {σ : Type} (hcache : cache.Sound archives d)
    (hids : ∀ a ∈ archives, ∀ b ∈ archives, b.id = a.id → b = a)
    (hsame : s.SameContainers d archives) (hr : r.archive ∈ archives) (verify : Bool)
    (sink : Sink σ) (state : σ) :
    (r.extractShared cache s verify sink state).1 = r.extract s verify sink state ∧
      (r.extractShared cache s verify sink state).2.Sound archives d := by
  obtain ⟨hsource, hsound⟩ := source_eq hcache hr (hids _ hr) (hsame _ hr) r.entry.handle
  rw [Resolved.extractShared, Resolved.extract]
  dsimp only
  exact ⟨by rw [hsource], hsound⟩

theorem Reached.sound (h : Reached archives d cache)
    (hids : ∀ a ∈ archives, ∀ b ∈ archives, b.id = a.id → b = a) : cache.Sound archives d := by
  induction h with
  | empty => exact sound_nil archives d
  | read verify sink state _ hsame hr ih =>
      exact (extractShared_spec ih hids hsame hr verify sink state).2

end ContainerCache

namespace ExportState

variable {σ : Type} {archives : List Archive} {made : Disk} {s : ExportState σ} {r : Resolved}
  {path destination : String} {options : ExportOptions σ} {task : ExportTask} {total : Nat}

/-- A file is written as if it was extracted on its own, if no container changes. -/
theorem writeFile_spec (hcaches : ∀ job, (s.caches job).Sound archives made)
    (hids : ∀ a ∈ archives, ∀ b ∈ archives, b.id = a.id → b = a) (hr : r.archive ∈ archives)
    (hprepared : (Destination.prepare s.disk path).1.SameContainers made archives)
    (options : ExportOptions σ) (job : Nat) :
    r.extractToFileBy s.disk options.verify options.sink s.state path =
        ((s.writeFile options job r path).1.disk, (s.writeFile options job r path).2) ∧
      ∀ other, ((s.writeFile options job r path).1.caches other).Sound archives made := by
  rw [Resolved.extractToFileBy, writeFile]
  rcases hprepare : Destination.prepare s.disk path with ⟨disk, fault | dest⟩
  · exact ⟨rfl, hcaches⟩
  · rw [hprepare] at hprepared
    obtain ⟨hsource, hsound⟩ := ContainerCache.source_eq (hcaches job) hr (hids _ hr)
      (hprepared _ hr) r.entry.handle
    dsimp only [Resolved.extract] at hsource hsound ⊢
    refine ⟨by rw [hsource], fun other => ?_⟩
    split
    · exact hsound
    · exact hcaches other

/-- That no container changes while the place of a file is made. -/
def Spares (s : ExportState σ) (options : ExportOptions σ) (destination : String)
    (task : ExportTask) (made : Disk) (archives : List Archive) : Prop :=
  (options.sink.poll s.state).1 = false →
    (Destination.prepare s.disk (task.target.path destination)).1.SameContainers made archives

/-- What becomes of a file, given the states before and after it. Once the export has been
cancelled nothing is done; otherwise the file is extracted as if it was the only one. -/
structure HandledAlone (s s' : ExportState σ) (options : ExportOptions σ) (destination : String)
    (task : ExportTask) (result : Except Error Nat) : Prop where
  results : s'.results = fun index => if index = task.index then some result else s.results index
  cancelled : (options.sink.poll s.state).1 = true → result = .error .cancelled ∧ s'.disk = s.disk
  extracted : (options.sink.poll s.state).1 = false →
    task.target.file.extractToFileBy s.disk options.verify options.sink
      (options.sink.poll s.state).2 (task.target.path destination) = (s'.disk, result)

/-- The step of an export. -/
theorem exportFile_spec (hcaches : ∀ job, (s.caches job).Sound archives made)
    (hids : ∀ a ∈ archives, ∀ b ∈ archives, b.id = a.id → b = a)
    (ht : task.target.file.archive ∈ archives)
    (hspares : s.Spares options destination task made archives) (total : Nat) :
    (∀ job, ((s.exportFile options destination total task).caches job).Sound archives made) ∧
      ∃ result, s.HandledAlone (s.exportFile options destination total task) options destination
        task result := by
  rcases hpoll : options.sink.poll s.state with ⟨cancelled, state⟩
  cases cancelled with
  | true =>
      rw [exportFile_cancelled hpoll]
      refine ⟨hcaches, .error .cancelled, rfl, fun _ => ⟨rfl, rfl⟩, ?_⟩
      simp [hpoll]
  | false =>
      obtain ⟨hextract, hsound⟩ := writeFile_spec (s := { s with state }) hcaches hids ht
        (hspares (by rw [hpoll])) options task.job
      have hkept := (writeFile_kept { s with state } options task.job task.target.file
        (task.target.path destination)).2
      rcases hwrite : ({ s with state } : ExportState σ).writeFile options task.job
        task.target.file (task.target.path destination) with ⟨s', result⟩
      rw [hwrite] at hextract hsound hkept
      rw [exportFile_written hpoll hwrite]
      refine ⟨hsound, result, ?_, by simp [hpoll], fun _ => by rw [hpoll]; exact hextract⟩
      rw [record]
      dsimp only
      rw [show s'.results = s.results from hkept]

/-- The run of an export: the containers that are open can be used for every file. -/
theorem sound_after {tasks : List ExportTask} (hcaches : ∀ job, (s.caches job).Sound archives made)
    (hids : ∀ a ∈ archives, ∀ b ∈ archives, b.id = a.id → b = a)
    (htasks : ∀ task ∈ tasks, task.target.file.archive ∈ archives)
    (hspares : ∀ front task rest, tasks = front ++ task :: rest →
      (s.after options destination total front).Spares options destination task made archives) :
    ∀ job, ((s.after options destination total tasks).caches job).Sound archives made := by
  induction tasks generalizing s with
  | nil => exact hcaches
  | cons task rest ih =>
      have hstep :=
        exportFile_spec hcaches hids (htasks task (by simp)) (hspares [] task rest rfl) total
      refine ih hstep.1 (fun other hother => htasks other (by simp [hother])) ?_
      rintro front other more rfl
      exact hspares (task :: front) other more rfl

end ExportState

/-- After every run, open containers never give another file's bytes. Whatever files have been read
through a cache, and however that ended, the next one is read as on its own. And in an export
during which no container changes, in whatever order and by whichever jobs the files are handled,
each file that comes before a cancellation is written as if it was extracted on its own, on the
disk as it is then. -/
theorem sharing_unseen (requests : List MountRequest) :
    let o := (MountRun.of requests).table.overlay
    (∀ (d s : Disk) (cache : ContainerCache) (r : Resolved) (σ : Type) (verify : Bool)
        (sink : Sink σ) (state : σ), cache.Reached o.archives d → s.SameContainers d o.archives →
        r.archive ∈ o.archives →
      (r.extractShared cache s verify sink state).1 = r.extract s verify sink state) ∧
    ∀ (d made : Disk) (σ : Type) (options : ExportOptions σ) (state : σ)
        (schedule : (total : Nat) → Schedule total) (raw destination : String) (dir : Path)
        (found : List Resolved), Path.parse raw = .ok dir → o.walk raw = .ok found →
        d.makeDirectories destination = (made, .ok ()) →
      let targets := found.map (o.exportTarget dir)
      let tasks := (schedule targets.length).tasks targets
      let reached := (ExportState.start made state).after options destination targets.length
      let outcome := o.exportTree d options state schedule raw destination
      (∀ front task rest, tasks = front ++ task :: rest →
        (reached front).Spares options destination task made o.archives) →
      outcome.disk = (reached tasks).disk ∧
      outcome.result = ExportSummary.ofResults destination ((reached tasks).inOrder targets) ∧
      ∀ front task rest, tasks = front ++ task :: rest →
        ∃ result, (reached front).HandledAlone (reached (front ++ [task])) options destination task
          result ∧ (reached tasks).results task.index = some result := by
  intro o
  have hids : ∀ a ∈ o.archives, ∀ b ∈ o.archives, b.id = a.id → b = a := fun _ ha _ hb hid =>
    (MountRun.sound_of requests).archive_eq ha hb hid
  constructor
  · intro d s cache r σ verify sink state hreached hsame hr
    exact (ContainerCache.extractShared_spec (hreached.sound hids) hids
      hsame hr verify sink state).1
  · intro d made σ options state schedule raw destination dir found hparse hwalk hmade targets
      tasks reached outcome hspares
    have houtcome := Overlay.exportTree_eq options state schedule hparse hwalk hmade
    refine ⟨congrArg ExportOutcome.disk houtcome, congrArg ExportOutcome.result houtcome, ?_⟩
    intro front task rest hsplit
    have htasks : ∀ task ∈ tasks, task.target.file.archive ∈ o.archives := by
      intro task htask
      have hmem := (schedule targets.length).targets_perm.subset (List.mem_map_of_mem htask)
      obtain ⟨r, hr, htarget⟩ := List.mem_map.mp hmem
      rw [Overlay.eq_allBelow_of_walk hparse hwalk] at hr
      obtain ⟨-, hresolve⟩ := (Overlay.mem_allBelow (Path.canonical_of_parse hparse)).mp hr
      rw [← htarget]
      exact (Overlay.entry_of_resolve? hresolve).1
    have hcaches : ∀ job, ((reached front).caches job).Sound o.archives made := by
      refine ExportState.sound_after (fun _ => ContainerCache.sound_nil o.archives made) hids
        (fun other hother => htasks other (by simp [hsplit, hother])) ?_
      rintro before other more rfl
      exact hspares before other (more ++ task :: rest) (by simp [hsplit])
    obtain ⟨-, result, halone⟩ := ExportState.exportFile_spec hcaches hids
      (htasks task (by simp [hsplit])) (hspares front task rest hsplit) targets.length
    rw [← ExportState.after_concat] at halone
    refine ⟨result, halone, ?_⟩
    have hverdict :=
      ExportState.results_exportFile (reached front) options destination
        targets.length task task.index
    rw [← ExportState.after_concat, halone.results] at hverdict
    simp only [reduceIte] at hverdict
    have hnodup : (tasks.map ExportTask.index).Nodup := (schedule targets.length).indices_nodup
    rw [hsplit] at hnodup ⊢
    exact (ExportState.results_after hnodup).trans hverdict.symm

theorem Disk.Holds.prepare {d : Disk} {path other : String} {place : Location} {id : FileId}
    {content : ByteArray} (h : d.Holds other place id content)
    (hopened : id ∉ (d.openedFor path).map Prod.snd) :
    (Destination.prepare d path).1.Holds other place id content := by
  have hmade := h.grown (withParents_grown h.proper path)
  rcases prepare_cases h.proper path with ⟨fault, hprepare, -⟩ | ⟨s, opened, id', hs⟩
  · rwa [hprepare]
  · rw [hs.openedFor_eq, List.map_singleton, List.mem_singleton] at hopened
    rw [hs.prepare]
    exact hmade.created hs.created hopened

namespace ExportState

variable {σ : Type} {s : ExportState σ} {options : ExportOptions σ} {destination path : String}
  {total : Nat} {task : ExportTask} {front rest : List ExportTask} {place : Location} {id : FileId}
  {content : ByteArray}

theorem opened_append (s : ExportState σ) (options : ExportOptions σ) (destination : String)
    (total : Nat) (front rest : List ExportTask) :
    s.opened options destination total (front ++ rest) =
      s.opened options destination total front ++
        (s.after options destination total front).opened options destination total rest := by
  induction front generalizing s with
  | nil => rfl
  | cons task front ih =>
      rw [List.cons_append, opened, ih, opened, List.append_assoc]
      rfl

/-- An export that does not open a file leaves it where it is and as it is. -/
theorem holds_prepared (h : s.disk.Holds path place id content)
    (hopened : id ∉ (s.opened options destination total (front ++ task :: rest)).map Prod.snd)
    (hgoes : (options.sink.poll (s.after options destination total front).state).1 = false) :
    (Destination.prepare (s.after options destination total front).disk
      (task.target.path destination)).1.Holds path place id content := by
  rw [opened_append, List.map_append, List.mem_append, not_or, opened, if_neg (by simp [hgoes]),
    List.map_append, List.mem_append, not_or] at hopened
  exact (holds_after h hopened.1).prepare hopened.2.1

end ExportState

/-- Containers that are not opened for writing do not change. -/
theorem Overlay.spares_of_unopened {σ : Type} {o : Overlay} {d made : Disk}
    {options : ExportOptions σ} {state : σ} {schedule : (total : Nat) → Schedule total}
    {raw destination : String} {dir : Path} {found : List Resolved}
    (hparse : Path.parse raw = .ok dir) (hwalk : o.walk raw = .ok found)
    (hmade : d.makeDirectories destination = (made, .ok ()))
    (hheld : ∀ a ∈ o.archives, ∀ reader path, a.backing = .zip reader path → ∃ place id content,
      d.Holds path place id content ∧
        id ∉ (o.openedBy d options state schedule raw destination).map Prod.snd) :
    let targets := found.map (o.exportTarget dir)
    ∀ front task rest, (schedule targets.length).tasks targets = front ++ task :: rest →
      ((ExportState.start made state).after options destination targets.length front).Spares
        options destination task made o.archives := by
  intro targets front task rest hsplit hgoes a ha reader path hbacking
  obtain ⟨place, id, content, hholds, hopened⟩ := hheld a ha reader path hbacking
  have hthere := hholds.makeDirectories destination
  rw [hmade] at hthere
  rw [openedBy_eq options state schedule hparse hwalk hmade, hsplit] at hopened
  have hprepared := ExportState.holds_prepared (s := .start made state) hthere hopened hgoes
  apply Disk.fileAt_congr (hprepared.find.trans hthere.find.symm)
  intro place' id' hfind
  cases hthere.find.symm.trans hfind
  exact hprepared.content.trans hthere.content.symm

namespace Disk

/-- The disk with a container beside an empty directory. -/
def shelf : Disk where
  nodes := [(["out"], .directory), (["a.zip"], .file (.regular 0))]
  contents := [(0, Zip.onlyMember 1)]

theorem proper_shelf : shelf.Proper :=
  proper_of_places (List.forall_mem_cons.mpr ⟨rfl, List.forall_mem_singleton.mpr rfl⟩) rfl

theorem holds_shelf : shelf.Holds "a.zip" ["a.zip"] (.regular 0) (Zip.onlyMember 1) where
  proper := proper_shelf
  find := find_eq_ok_iff.mpr ⟨⟨by decide, by decide, by decide⟩,
    .file ⟨by decide, by decide, by decide, by decide⟩ rfl⟩
  content := rfl

theorem plain_shelf : shelf.Plain "out" ["out"] where
  proper := proper_shelf
  find := find_eq_ok_iff.mpr ⟨⟨by decide, by decide, by decide⟩,
    .directory nameable_out rfl (.here rfl)⟩
  linkless := by
    intro names target
    cases names with
    | nil => exact fun hnode => by cases hnode
    | cons name rest => exact fun hnode => by cases hnode

end Disk

/-- Three files of one container, from the last to the first. The second has no content there, and
the first is read after it. -/
theorem sharing_unseen_container : ∃ a first second third,
    Archive.build ⟨"a.zip"⟩ (.zip Zip.reader "a.zip")
      [⟨"a", 1, 0, 0⟩, ⟨"b", 1, 0, 1⟩, ⟨"c", 1, 0, 0⟩] = .ok a ∧
    let o := (MountRun.of [.mount a 0]).table.overlay
    let task :=
      fun (r : Resolved) (index : Nat) => (⟨o.exportTarget .root r, index, 0⟩ : ExportTask)
    let before := [task third 2, task second 1]
    let reached := (ExportState.start .shelf ()).after (.plain false) "out" 3
    o.walk "" = .ok [first, second, third] ∧
    (reached before).Spares (.plain false) "out" (task first 0) .shelf o.archives ∧
    (o.exportTree .shelf (.plain false) () .backwards "" "out").disk =
      (reached (before ++ [task first 0])).disk ∧
    ∃ result, (reached before).HandledAlone (reached (before ++ [task first 0]))
      (.plain false) "out" (task first 0) result := by
  have hload : ∃ a first second third,
      Archive.build ⟨"a.zip"⟩ (.zip Zip.reader "a.zip")
        [⟨"a", 1, 0, 0⟩, ⟨"b", 1, 0, 1⟩, ⟨"c", 1, 0, 0⟩] = .ok a ∧
      a.backing = .zip Zip.reader "a.zip" ∧
      (MountRun.of [.mount a 0]).table.overlay.archives = [a] ∧
      (MountRun.of [.mount a 0]).table.overlay.walk "" = .ok [first, second, third] :=
    ⟨_, _, _, _, rfl, rfl, rfl, rfl⟩
  obtain ⟨a, first, second, third, hbuild, hbacking, harchives, hwalk⟩ := hload
  have hparse : Path.parse "" = .ok .root := rfl
  have hmade : Disk.makeDirectories .shelf "out" = (.shelf, .ok ()) :=
    Disk.makeDirectoriesFrom_of_find Disk.plain_shelf.find
  have houtside : ∀ names, Disk.node? .shelf (["out"] ++ names) ≠ some (.file (.regular 0)) := by
    intro names
    cases names with
    | nil => exact fun hnode => by cases hnode
    | cons name rest => exact fun hnode => by cases hnode
  have hspares := @Overlay.spares_of_unopened Unit _ .shelf .shelf (.plain false)
    () .backwards "" "out" _ _ hparse hwalk hmade (by
      intro b hb reader path hpath
      rw [harchives, List.mem_singleton] at hb
      subst hb
      rw [hbacking] at hpath
      cases hpath
      exact ⟨_, _, _, Disk.holds_shelf, Overlay.not_openedBy hparse hwalk hmade Disk.plain_shelf
        Disk.holds_shelf.find houtside⟩)
  obtain ⟨-, hexport⟩ := sharing_unseen [.mount a 0]
  obtain ⟨hdisk, -, halone⟩ :=
    hexport .shelf .shelf Unit (.plain false) () .backwards "" "out" .root _
      hparse hwalk hmade hspares
  obtain ⟨result, hresult, -⟩ := halone [_, _] _ [] rfl
  exact ⟨a, first, second, third, hbuild, hwalk, hspares [_, _] _ [] rfl, hdisk, result, hresult⟩

end ArchiveOverlay
