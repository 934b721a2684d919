import ArchiveOverlay.Proofs.Export.Tree
import ArchiveOverlay.Proofs.Extract.ToFile

namespace ArchiveOverlay

namespace Disk

/-- A disk on which a path leads to a directory with no links below it. -/
structure Plain (d : Disk) (path : String) (top : Location) : Prop where
  proper : d.Proper
  find : d.find path = .ok (top, .directory)
  linkless : ∀ names target, d.node? (top ++ names) ≠ some (.link target)

section

variable {d s : Disk} {path destination : String} {top place : Location} {names : List String}
  {id : FileId}

theorem Plain.grown (h : d.Plain destination top) (hs : s.Grown d) : s.Plain destination top where
  proper := hs.proper
  find := hs.kept.find h.find
  linkless := by
    intro names target hnode
    rcases hs.added _ _ hnode with hdirectory | hnode
    · cases hdirectory
    · exact h.linkless names target hnode

theorem Plain.created (h : d.Plain destination top) (hs : s.Created d place id) :
    s.Plain destination top where
  proper := hs.proper
  find := hs.kept.find h.find
  linkless := by
    intro names target hnode
    by_cases hplace : top ++ names = place
    · rw [hplace, hs.node] at hnode
      cases hnode
    · rw [hs.other _ hplace] at hnode
      exact h.linkless names target hnode

theorem Plain.write (h : d.Plain destination top) (id : FileId) (content : ByteArray) :
    (d.write id content).Plain destination top where
  proper := h.proper.write id content
  find := by rw [find_write, h.find]
  linkless := by
    simp only [node?_write]
    exact h.linkless

theorem Plain.erase (h : d.Plain destination top) (hplace : d.node? place = some (.file id)) :
    (d.erase place).Plain destination top := by
  have hne : place ≠ [] := ne_nil_of_node? (d := d) (by simp [hplace])
  refine ⟨h.proper.erase (by simp [hplace]),
    find_directory_of_ways (d := d) rfl (keepsWays_erase hplace) h.find, ?_⟩
  intro names target hnode
  rw [node?_erase hne] at hnode
  split at hnode
  · cases hnode
  · exact h.linkless names target hnode

/-- Below such a directory, names lead to the place that they say. -/
theorem Plain.locate_eq (h : d.Plain destination top) (hnames : ∀ name ∈ names, Ordinary name)
    (hne : names ≠ []) {followLast : Bool} {node : Node}
    (hlocate : d.locate (names.foldl HostPath.join destination) followLast =
      .ok ⟨place, some node⟩) :
    place = top ++ names := by
  obtain ⟨links, hfollow⟩ :=
    exists_locate_eq h.find hnames (admissible_of_locate hlocate) hne
  rw [hfollow] at hlocate
  exact (reaches_of_follow hlocate).eq_append hnames h.linkless

theorem Plain.opens (h : d.Plain destination top)
    (hs : d.Opens path s place id) : s.Plain destination top :=
  (h.grown (withParents_grown h.proper path)).created hs.created

theorem Plain.place_eq (h : d.Plain destination top) (hnames : ∀ name ∈ names, Ordinary name)
    (hne : names ≠ []) (hs : d.Opens (names.foldl HostPath.join destination) s place id) :
    place = top ++ names :=
  (h.opens hs).locate_eq hnames hne (locate_of_find hs.find)

theorem Plain.openedFor (h : d.Plain destination top) (hnames : ∀ name ∈ names, Ordinary name)
    (hne : names ≠ [])
    (hopened : (place, id) ∈ d.openedFor (names.foldl HostPath.join destination)) :
    place = top ++ names := by
  rcases prepare_cases h.proper (names.foldl HostPath.join destination) with
    ⟨fault, -, hnone, -⟩ | ⟨s, place', id', hs⟩
  · rw [hnone] at hopened
    cases hopened
  · rw [hs.openedFor_eq, List.mem_singleton] at hopened
    cases hopened
    exact h.place_eq hnames hne hs

theorem Delivers.plain {extracted : Disk → Except Error Nat × ByteArray}
    {result : Except Error Nat}
    (hdelivers : d.Delivers (names.foldl HostPath.join destination) extracted s result)
    (h : d.Plain destination top) (hnames : ∀ name ∈ names, Ordinary name) (hne : names ≠ []) :
    s.Plain destination top := by
  cases hdelivers with
  | refused => exact h.grown (withParents_grown h.proper _)
  | written hs => exact (h.opens hs).write _ _
  | left hs => exact (h.opens hs).write _ _
  | removed hs _ hname =>
      -- There is no link to take away, so it is the file that was opened.
      have hplain := h.opens hs
      have hplace := hplain.locate_eq hnames hne hname
      have hnode := node?_of_locate hname
      rcases name_cases hs.find hname with ⟨-, rfl⟩ | ⟨target, rfl⟩
      · exact (hplain.write _ _).erase (by rw [node?_write, hnode])
      · rw [hplace] at hnode
        exact absurd hnode (hplain.linkless names target)

/-- A file that has a name is opened only under one that it has below the directory. -/
theorem Plain.not_opened (h : d.Plain destination top) (hnames : ∀ name ∈ names, Ordinary name)
    (hne : names ≠ []) (hplace : d.node? place = some (.file id))
    (houtside : ∀ more, d.node? (top ++ more) ≠ some (.file id)) :
    id ∉ (d.openedFor (names.foldl HostPath.join destination)).map Prod.snd := by
  have hgrown := withParents_grown h.proper (names.foldl HostPath.join destination)
  rcases prepare_cases h.proper (names.foldl HostPath.join destination) with
    ⟨fault, -, hnone, -⟩ | ⟨s, opened, id', hs⟩
  · simp [hnone]
  · rw [hs.openedFor_eq, List.map_singleton, List.mem_singleton]
    rintro rfl
    rcases hs.created.before with ⟨-, -, hnew⟩ | hthere
    · exact hnew place (hgrown.kept.node _ _ hplace)
    · rw [h.place_eq hnames hne hs] at hthere
      rcases hgrown.added _ _ hthere with hdirectory | hbefore
      · cases hdirectory
      · exact houtside names hbefore

/-- A file gets no new names when another one is written. -/
theorem Delivers.node?_of_file {extracted : Disk → Except Error Nat × ByteArray}
    {result : Except Error Nat} (hdelivers : d.Delivers path extracted s result) (hd : d.Proper)
    (hopened : id ∉ (d.openedFor path).map Prod.snd) (hplace : s.node? place = some (.file id)) :
    d.node? place = some (.file id) := by
  have hmade : (d.withParents path).1.node? place = some (.file id) →
      d.node? place = some (.file id) := by
    intro hnode
    exact ((withParents_grown hd path).added _ _ hnode).resolve_left (by simp)
  have hcreated : ∀ {t : Disk} {opened : Location} {other : FileId}, d.Opens path t opened other →
      t.node? place = some (.file id) → d.node? place = some (.file id) := by
    intro t opened other ht hnode
    apply hmade
    rw [← ht.created.other, hnode]
    rintro rfl
    rw [ht.created.node] at hnode
    cases hnode
    simp [ht.openedFor_eq] at hopened
  cases hdelivers with
  | refused => exact hmade hplace
  | written hs => exact hcreated hs (by rwa [node?_write] at hplace)
  | left hs => exact hcreated hs (by rwa [node?_write] at hplace)
  | removed hs _ hname =>
      rw [node?_erase (hs.name_ne_nil hname), node?_write] at hplace
      split at hplace
      · cases hplace
      · exact hcreated hs hplace

end

end Disk

namespace ExportState

variable {σ : Type}

/-- The files that are opened while some more files are exported, with their places. -/
def opened (s : ExportState σ) (options : ExportOptions σ) (destination : String) (total : Nat) :
    List ExportTask → List (Location × FileId)
  | [] => []
  | task :: rest =>
    (if (options.sink.poll s.state).1 then []
      else s.disk.openedFor (task.target.path destination)) ++
      (s.exportFile options destination total task).opened options destination total rest

variable {s : ExportState σ} {options : ExportOptions σ} {destination : String} {total : Nat}
  {task : ExportTask}

/-- What a file is written with, given the disk that it has been opened on. -/
def extracted (s : ExportState σ) (options : ExportOptions σ) (job : Nat) (r : Resolved)
    (disk : Disk) : Except Error Nat × ByteArray :=
  let delivered := r.deliver options.verify
    ((s.caches job).source disk r.archive r.entry.handle).1 options.sink s.state
  (delivered.1, delivered.2.accepted)

theorem delivers_writeFile (hs : s.disk.Proper) (options : ExportOptions σ) (job : Nat)
    (r : Resolved) (path : String) :
    s.disk.Delivers path (s.extracted options job r) (s.writeFile options job r path).1.disk
      (s.writeFile options job r path).2 := by
  rw [writeFile]
  rcases Disk.prepare_cases hs path with
    ⟨fault, hprepare, hopened, hfault⟩ | ⟨disk, place, id, hopens⟩
  · rw [hprepare]
    exact .refused hopened hfault
  · rw [hopens.prepare]
    exact Disk.delivers_finish hs hopens rfl

/-- A file is written unless the export has been cancelled. -/
theorem delivers_exportFile (hs : s.disk.Proper) (options : ExportOptions σ) (destination : String)
    (total : Nat) (task : ExportTask) :
    if (options.sink.poll s.state).1 then
      (s.exportFile options destination total task).disk = s.disk
    else ∃ extracted result, s.disk.Delivers (task.target.path destination) extracted
      (s.exportFile options destination total task).disk result := by
  rcases hpoll : options.sink.poll s.state with ⟨cancelled, state⟩
  cases cancelled with
  | true =>
      rw [if_pos rfl, exportFile_cancelled hpoll]
      rfl
  | false =>
      have hdelivers := delivers_writeFile (s := { s with state }) hs options task.job
        task.target.file (task.target.path destination)
      rcases hwrite : ({ s with state } : ExportState σ).writeFile options task.job
        task.target.file (task.target.path destination) with ⟨s', result⟩
      rw [hwrite] at hdelivers
      rw [if_neg (by simp), exportFile_written hpoll hwrite]
      exact ⟨_, _, hdelivers⟩

section Holds

variable {path : String} {place : Location} {id : FileId} {content : ByteArray}

theorem exportFile_holds (h : s.disk.Holds path place id content) {rest : List ExportTask}
    (hopened : id ∉ (s.opened options destination total (task :: rest)).map Prod.snd) :
    (s.exportFile options destination total task).disk.Holds path place id content ∧
      id ∉ ((s.exportFile options destination total task).opened options destination total
        rest).map Prod.snd := by
  rw [opened, List.map_append, List.mem_append, not_or] at hopened
  have hdelivers := delivers_exportFile h.proper options destination total task
  refine ⟨?_, hopened.2⟩
  split at hdelivers
  · rwa [hdelivers]
  next hgoes =>
    obtain ⟨extracted, result, hdelivers⟩ := hdelivers
    rw [if_neg hgoes] at hopened
    exact hdelivers.holds h hopened.1

/-- Through a whole export, a file stays what it is if it is never opened. -/
theorem holds_after {tasks : List ExportTask} (h : s.disk.Holds path place id content)
    (hopened : id ∉ (s.opened options destination total tasks).map Prod.snd) :
    (s.after options destination total tasks).disk.Holds path place id content := by
  induction tasks generalizing s with
  | nil => exact h
  | cons task rest ih =>
      obtain ⟨hstep, hrest⟩ := exportFile_holds h hopened
      exact ih hstep hrest

end Holds

theorem exportFile_plain {top : Location} (h : s.disk.Plain destination top)
    (hpath : task.target.path destination = task.target.names.foldl HostPath.join destination)
    (hnames : ∀ name ∈ task.target.names, Ordinary name) (hne : task.target.names ≠ []) :
    (s.exportFile options destination total task).disk.Plain destination top := by
  have hdelivers := delivers_exportFile h.proper options destination total task
  split at hdelivers
  · rwa [hdelivers]
  · obtain ⟨extracted, result, hdelivers⟩ := hdelivers
    rw [hpath] at hdelivers
    exact hdelivers.plain h hnames hne

/-- And a file with no name below the destination is not opened. -/
theorem not_opened {path : String} {place top : Location} {id : FileId} {content : ByteArray}
    {tasks : List ExportTask} (h : s.disk.Plain destination top)
    (hnames : ∀ task ∈ tasks, task.target.names ≠ [] ∧
      (∀ name ∈ task.target.names, Ordinary name) ∧
        task.target.path destination = task.target.names.foldl HostPath.join destination)
    (hfile : s.disk.Holds path place id content)
    (houtside : ∀ names, s.disk.node? (top ++ names) ≠ some (.file id)) :
    id ∉ (s.opened options destination total tasks).map Prod.snd := by
  induction tasks generalizing s with
  | nil => simp [opened]
  | cons task rest ih =>
      obtain ⟨hne, hordinary, hpath⟩ := hnames task (by simp)
      have hfirst := h.not_opened hordinary hne (Disk.node?_of_find hfile.find) houtside
      rw [← hpath] at hfirst
      have hplain : (s.exportFile options destination total task).disk.Plain destination top :=
        exportFile_plain h hpath hordinary hne
      have hdelivers := delivers_exportFile h.proper options destination total task
      rw [opened, List.map_append, List.mem_append, not_or]
      split at hdelivers
      next hcancelled =>
        rw [if_pos hcancelled]
        refine ⟨by simp, ih hplain (fun other hother => hnames other (by simp [hother])) ?_ ?_⟩
        · rwa [hdelivers]
        · rwa [hdelivers]
      next hgoes =>
        obtain ⟨extracted, result, hdelivers⟩ := hdelivers
        rw [if_neg hgoes]
        refine ⟨hfirst, ih hplain (fun other hother => hnames other (by simp [hother]))
          (hdelivers.holds hfile hfirst) fun names hnode => ?_⟩
        exact houtside names (hdelivers.node?_of_file h.proper hfirst hnode)

end ExportState

namespace Overlay

variable {σ : Type} {o : Overlay} {d made : Disk} {options : ExportOptions σ} {state : σ}
  {schedule : (total : Nat) → Schedule total} {raw destination : String} {dir : Path}
  {found : List Resolved}

/-- The files that an export opens for writing, with their places. -/
def openedBy (o : Overlay) (d : Disk) (options : ExportOptions σ) (state : σ)
    (schedule : (total : Nat) → Schedule total) (dir destination : String) :
    List (Location × FileId) :=
  match (do
    let path ← parsePath dir
    return (← o.walkPath path).map (o.exportTarget path)) with
  | .error _ => []
  | .ok targets =>
    match d.makeDirectories destination with
    | (_, .error _) => []
    | (made, .ok ()) =>
      (ExportState.start made state).opened options destination targets.length
        ((schedule targets.length).tasks targets)

theorem openedBy_eq (options : ExportOptions σ) (state : σ)
    (schedule : (total : Nat) → Schedule total) (hparse : Path.parse raw = .ok dir)
    (hwalk : o.walk raw = .ok found) (hmade : d.makeDirectories destination = (made, .ok ())) :
    let targets := found.map (o.exportTarget dir)
    o.openedBy d options state schedule raw destination =
      (ExportState.start made state).opened options destination targets.length
        ((schedule targets.length).tasks targets) := by
  obtain ⟨hpath, hfound⟩ := parsePath_and_walkPath hparse hwalk
  unfold openedBy
  simp only [hpath, bind, Except.bind, hfound, pure, Except.pure, hmade]

theorem tasks_named (schedule : (total : Nat) → Schedule total) (hparse : Path.parse raw = .ok dir)
    (hwalk : o.walk raw = .ok found) (hdestination : destination ≠ "") :
    let targets := found.map (o.exportTarget dir)
    ∀ task ∈ (schedule targets.length).tasks targets,
      task.target.names ≠ [] ∧ (∀ name ∈ task.target.names, Ordinary name) ∧
        task.target.path destination = task.target.names.foldl HostPath.join destination := by
  intro targets task htask
  have hmem := (schedule targets.length).targets_perm.subset (List.mem_map_of_mem htask)
  rw [show targets = _ from congrArg _ (eq_allBelow_of_walk hparse hwalk)] at hmem
  obtain ⟨-, hordinary, hne⟩ := targets_named (Path.canonical_of_parse hparse) _ hmem
  exact ⟨hne, hordinary, ExportTarget.path_eq hne hordinary hdestination⟩

theorem not_openedBy {top place : Location} {path : String} {id : FileId}
    (hparse : Path.parse raw = .ok dir) (hwalk : o.walk raw = .ok found)
    (hmade : d.makeDirectories destination = (made, .ok ())) (hplain : made.Plain destination top)
    (hfind : made.find path = .ok (place, .file id))
    (houtside : ∀ names, made.node? (top ++ names) ≠ some (.file id)) :
    id ∉ (o.openedBy d options state schedule raw destination).map Prod.snd := by
  have hdestination := (Disk.find_eq_ok_iff.mp hplain.find).1.ne_empty
  rw [openedBy_eq options state schedule hparse hwalk hmade]
  exact ExportState.not_opened (s := .start made state) hplain
    (tasks_named schedule hparse hwalk hdestination) ⟨hplain.proper, hfind, rfl⟩ houtside

end Overlay

namespace Disk

end Disk

end ArchiveOverlay
