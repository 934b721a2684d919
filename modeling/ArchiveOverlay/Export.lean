import ArchiveOverlay.Extract

namespace ArchiveOverlay

/-- Containers that stay open for a while, by the names of their archives. -/
abbrev ContainerCache := List (ArchiveId × OpenContainer)

namespace ContainerCache

def get? (cache : ContainerCache) (id : ArchiveId) : Option OpenContainer :=
  List.lookup id cache

/-- The content behind a handle, where a container is opened only the first time. -/
def source (cache : ContainerCache) (d : Disk) (a : Archive) (handle : Nat) :
    Except Error Source × ContainerCache :=
  match a.backing with
  | .zip reader path =>
    match cache.get? a.id with
    | some opened => (opened.source d a.id handle, cache)
    | none =>
      match openContainer reader d path with
      | .error e => (.error e, cache)
      | .ok opened => (opened.source d a.id handle, (a.id, opened) :: cache)
  | _ => (a.source d handle, cache)

end ContainerCache

/-- A file to be exported, and its path below the destination. -/
structure ExportTarget where
  file : Resolved
  names : List String

/-- The names under which a file is exported: directories as the overlay spells them, and the file
as its own archive does. -/
def Overlay.outputNames (o : Overlay) (fileName : String) (dir : Path) : List String → List String
  | [] => [fileName]
  | [_] => [fileName]
  | key :: rest => (o.childName? dir key).getD key :: o.outputNames fileName (dir.child key) rest

def Overlay.exportTarget (o : Overlay) (dir : Path) (r : Resolved) : ExportTarget where
  file := r
  names := o.outputNames r.entry.display.fileName dir (r.path.segments.drop dir.segments.length)

/-- Where a file goes. -/
def ExportTarget.path (t : ExportTarget) (destination : String) : String :=
  HostPath.join destination (t.names.foldl HostPath.join "")

/-- A report that one more file is done. -/
structure ExportProgress where
  currentFile : String
  current : Nat
  total : Nat
  deriving DecidableEq, Repr

/-- A file that could not be exported. -/
structure ExportFailure where
  path : Path
  error : Error
  deriving DecidableEq, Repr

structure ExportSummary where
  destination : String
  filesWritten : Nat
  bytesWritten : Nat
  failures : List ExportFailure
  deriving DecidableEq, Repr

/-- How an export is done: whether contents are verified, where the bytes of each file go and
whether to stop, and what a report leads to. -/
structure ExportOptions (σ : Type) where
  verify : Bool
  sink : Sink σ
  report : ExportProgress → σ → σ

namespace ExportOptions

/-- An export that nothing stops. -/
def plain (verify : Bool) : ExportOptions Unit :=
  ⟨verify, .unlimited false, fun _ _ => ()⟩

/-- An export that is cancelled by one of its reports. The state tells whether it has been. -/
def cancelling (verify : Bool) (stops : ExportProgress → Bool) : ExportOptions Bool :=
  ⟨verify, .cancellable, fun report cancelled => cancelled || stops report⟩

end ExportOptions

/-- In which order the files of an export are handled, and by which job each of them. Files go by
their numbers in the order of their paths. -/
structure Schedule (total : Nat) where
  steps : List (Nat × Nat)
  complete : (steps.map Prod.fst).Perm (List.range total)

/-- The schedule of a single worker: one job has the first half of the files, and another the
second. -/
def Schedule.halves (total : Nat) : Schedule total where
  steps := (List.range total).map fun index => (index, if index < total / 2 then 0 else 1)
  complete := by simp [Function.comp_def]

/-- A file of an export with its number and its job. -/
structure ExportTask where
  target : ExportTarget
  index : Nat
  job : Nat

/-- The files in the order of a schedule. -/
def Schedule.tasks {total : Nat} (schedule : Schedule total) (targets : List ExportTarget) :
    List ExportTask :=
  schedule.steps.filterMap fun (index, job) => targets[index]?.map fun t => ⟨t, index, job⟩

/-- An export on its way. -/
structure ExportState (σ : Type) where
  disk : Disk
  /-- What the sink goes by. -/
  state : σ
  /-- The containers that each job keeps open. -/
  caches : Nat → ContainerCache
  /-- Reports so far. -/
  progress : List ExportProgress
  /-- What became of each file so far. -/
  results : Nat → Option (Except Error Nat)

namespace ExportState

variable {σ : Type}

def start (d : Disk) (state : σ) : ExportState σ :=
  ⟨d, state, fun _ => [], [], fun _ => none⟩

/-- Writes one file of an export. -/
def writeFile (s : ExportState σ) (options : ExportOptions σ) (job : Nat) (r : Resolved)
    (path : String) : ExportState σ × Except Error Nat :=
  match Destination.prepare s.disk path with
  | (disk, .error fault) => ({ s with disk }, .error (.io fault))
  | (disk, .ok dest) =>
    let (source, cache) := (s.caches job).source disk r.archive r.entry.handle
    let (result, o) := r.deliver options.verify source options.sink s.state
    ({ s with
        disk := dest.finish disk o.accepted result
        state := o.state
        caches := fun other => if other = job then cache else s.caches other },
      result)

def record (s : ExportState σ) (index : Nat) (result : Except Error Nat) : ExportState σ :=
  { s with results := fun other => if other = index then some result else s.results other }

/-- Handles a file, unless the export has been cancelled. -/
def exportFile (s : ExportState σ) (options : ExportOptions σ) (destination : String) (total : Nat)
    (task : ExportTask) : ExportState σ :=
  match options.sink.poll s.state with
  | (true, state) => { s with state }.record task.index (.error .cancelled)
  | (false, state) =>
    let t := task.target
    let (s, result) := { s with state }.writeFile options task.job t.file (t.path destination)
    let report : ExportProgress := ⟨t.file.entry.display.text, s.progress.length + 1, total⟩
    { s with
      state := options.report report s.state
      progress := s.progress ++ [report] }.record task.index result

/-- What became of the files, in the order of their paths. -/
def inOrder (s : ExportState σ) (targets : List ExportTarget) : List (Path × Except Error Nat) :=
  targets.zipIdx.filterMap fun (t, index) =>
    (s.results index).map fun result => (t.file.path, result)

end ExportState

/-- The outcome of an export; being cancelled outweighs everything else. -/
def ExportSummary.ofResults (destination : String) (results : List (Path × Except Error Nat)) :
    Except Error ExportSummary :=
  if results.any fun (_, result) => result matches .error .cancelled then .error .cancelled
  else
    .ok {
      destination
      filesWritten := results.countP fun (_, result) => result.isOk
      bytesWritten :=
        (results.map fun (_, result) =>
          match result with
          | .ok n => n
          | .error _ => 0).foldr (· + ·) 0
      failures := results.filterMap fun (path, result) =>
        match result with
        | .error error => some ⟨path, error⟩
        | .ok _ => none }

/-- What an export leaves behind. -/
structure ExportOutcome where
  disk : Disk
  progress : List ExportProgress
  result : Except Error ExportSummary

/-- Extracts every file below a directory of the overlay into a directory on disk. -/
def Overlay.exportTree {σ : Type} (o : Overlay) (d : Disk) (options : ExportOptions σ) (state : σ)
    (schedule : (total : Nat) → Schedule total) (dir destination : String) : ExportOutcome :=
  match (do
    let path ← parsePath dir
    return (← o.walkPath path).map (o.exportTarget path)) with
  | .error e => ⟨d, [], .error e⟩
  | .ok targets =>
    match d.makeDirectories destination with
    | (d, .error fault) => ⟨d, [], .error (.io fault)⟩
    | (d, .ok ()) =>
      let total := targets.length
      let s := ((schedule total).tasks targets).foldl
        (fun s task => s.exportFile options destination total task) (ExportState.start d state)
      ⟨s.disk, s.progress, ExportSummary.ofResults destination (s.inOrder targets)⟩

end ArchiveOverlay
