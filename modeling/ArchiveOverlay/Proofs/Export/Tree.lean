import ArchiveOverlay.Proofs.Export.Log
import ArchiveOverlay.Proofs.Export.Names
import ArchiveOverlay.Proofs.Extract.ToFile
import ArchiveOverlay.Proofs.Mount.Run

namespace ArchiveOverlay

namespace Overlay

variable {o : Overlay} {dir : Path} {r r' : Resolved}

/-- Where one output path is the beginning of another, so is the path. -/
theorem above_of_names (hdir : dir.Canonical) (hr : r ∈ o.allBelow dir) (hr' : r' ∈ o.allBelow dir)
    (h : (o.exportTarget dir r').names <+: (o.exportTarget dir r).names) :
    r'.path = r.path ∨ r'.path.IsAbove r.path := by
  obtain ⟨habove, hnames⟩ := outputNames_of_mem hdir hr
  obtain ⟨habove', hnames'⟩ := outputNames_of_mem hdir hr'
  have hkeys := h.map Text.lowercase
  rw [hnames.lowercase, hnames'.lowercase] at hkeys
  obtain ⟨key, rest, hsegments⟩ := habove
  obtain ⟨key', rest', hsegments'⟩ := habove'
  rw [hsegments, hsegments', List.drop_left, List.drop_left] at hkeys
  obtain ⟨more, hmore⟩ := hkeys
  have hsplit : r.path.segments = r'.path.segments ++ more := by
    rw [hsegments, hsegments', ← hmore, List.append_assoc]
  cases more with
  | nil => exact .inl (Path.eq_of_segments (by simp [hsplit]))
  | cons next more => exact .inr ⟨next, more, hsplit⟩

/-- Files come before what lies below their output paths. -/
theorem targets_ordered (hdir : dir.Canonical) :
    ((o.allBelow dir).map (o.exportTarget dir)).Pairwise fun t t' => ¬ t'.names <+: t.names := by
  rw [List.pairwise_map]
  refine (o.allBelow_ascending dir).imp_of_mem ?_
  intro r r' hr hr' hlt hbegins
  rcases above_of_names hdir hr hr' hbegins with hsame | habove
  · rw [hsame] at hlt
    exact absurd hlt (lt_irrefl _)
  · have hcanonical := (holds_of_resolve? ((mem_allBelow hdir).mp hr).2).canonical
    exact absurd (Path.text_lt_of_isAbove hcanonical habove) (lt_asymm hlt)

theorem names_nodup (hdir : dir.Canonical) :
    (((o.allBelow dir).map (o.exportTarget dir)).map ExportTarget.names).Nodup := by
  rw [List.Nodup, List.pairwise_map]
  refine (targets_ordered hdir).imp ?_
  intro t t' hbegins hsame
  exact hbegins (hsame ▸ List.prefix_refl _)

theorem ready_of_mem {destination : String} (hdir : dir.Canonical) (hr : r ∈ o.allBelow dir)
    (hdestination : destination ≠ "")
    (hname : ∀ name ∈ (o.exportTarget dir r).names, name.utf8ByteSize ≤ Disk.maxNameSize)
    (hpath : ((o.exportTarget dir r).path destination).utf8ByteSize < Disk.pathLimit) :
    (o.exportTarget dir r).Ready o.archives destination := by
  obtain ⟨-, hnames⟩ := outputNames_of_mem hdir hr
  have hjoined := ExportTarget.path_eq hnames.ne_nil hnames.ordinary hdestination
  rw [hjoined] at hpath
  exact ⟨hnames.ne_nil, hjoined, ⟨hnames.ordinary, hname, hpath⟩,
    (entry_of_resolve? ((mem_allBelow hdir).mp hr).2).1⟩

theorem targets_named (hdir : dir.Canonical) :
    ∀ t ∈ (o.allBelow dir).map (o.exportTarget dir), t.file.archive ∈ o.archives ∧
      (∀ name ∈ t.names, Ordinary name) ∧ t.names ≠ [] := by
  intro t ht
  obtain ⟨r, hr, rfl⟩ := List.mem_map.mp ht
  obtain ⟨-, hnames⟩ := outputNames_of_mem hdir hr
  exact ⟨(entry_of_resolve? ((mem_allBelow hdir).mp hr).2).1, hnames.ordinary, hnames.ne_nil⟩

/-- What is exported are the files that a walk finds. -/
theorem parsePath_and_walkPath {raw : String} {found : List Resolved}
    (hparse : Path.parse raw = .ok dir) (hwalk : o.walk raw = .ok found) :
    parsePath raw = .ok dir ∧ o.walkPath dir = .ok found := by
  have hpath : parsePath raw = .ok dir := by
    rw [parsePath, hparse]
    rfl
  refine ⟨hpath, ?_⟩
  rw [← hwalk, walk, hpath]
  rfl

/-- An export comes down to handling the files that a walk finds. -/
theorem exportTree_eq {σ : Type} {d made : Disk} {raw destination : String} {found : List Resolved}
    (options : ExportOptions σ) (state : σ) (schedule : (total : Nat) → Schedule total)
    (hparse : Path.parse raw = .ok dir) (hwalk : o.walk raw = .ok found)
    (hmade : d.makeDirectories destination = (made, .ok ())) :
    let targets := found.map (o.exportTarget dir)
    let s := (ExportState.start made state).after options destination targets.length
      ((schedule targets.length).tasks targets)
    o.exportTree d options state schedule raw destination =
      ⟨s.disk, s.progress, ExportSummary.ofResults destination (s.inOrder targets)⟩ := by
  obtain ⟨hpath, hfound⟩ := parsePath_and_walkPath hparse hwalk
  rw [exportTree, hpath]
  simp only [bind, Except.bind, hfound, pure, Except.pure, hmade]
  rfl

/-- What is left of an export: a log of all files found. -/
structure Exported (o : Overlay) (d made : Disk) (place : Location) (verify : Bool) (dir : Path)
    (outcome : ExportOutcome) (summary : ExportSummary) (log : ExportLog) : Prop where
  targets : (log.map ExportAttempt.target).Perm ((o.allBelow dir).map (o.exportTarget dir))
  disk : outcome.disk.Filled made place (log.tried d verify)
  result : outcome.result = .ok summary
  possible : ExportLog.Possible d verify log
  sublist : (summary.failures.map ExportFailure.path).Sublist ((o.allBelow dir).map Resolved.path)
  failures : ∀ path, path ∈ summary.failures.map ExportFailure.path ↔
    ∃ a ∈ log, a.target.file.path = path ∧ ¬ a.result.isOk = true

theorem exists_exported {σ : Type} {d made : Disk} {raw destination : String} {place : Location}
    {found : List Resolved} {options : ExportOptions σ} {good : σ → Prop} {state : σ}
    (hoptions : options.Unhindered good) (hstate : good state)
    (schedule : (total : Nat) → Schedule total) (hparse : Path.parse raw = .ok dir)
    (hwalk : o.walk raw = .ok found) (hmade : d.makeDirectories destination = (made, .ok ()))
    (hground : ExportGround o.archives d made destination place)
    (hready : ∀ r ∈ o.allBelow dir, (o.exportTarget dir r).Ready o.archives destination) :
    ∃ summary log,
      log.map ExportAttempt.target = ((schedule (found.map (o.exportTarget dir)).length).tasks
        (found.map (o.exportTarget dir))).map ExportTask.target ∧
      o.Exported d made place options.verify dir
        (o.exportTree d options state schedule raw destination) summary log := by
  have hdir := Path.canonical_of_parse hparse
  rw [exportTree_eq options state schedule hparse hwalk hmade]
  obtain rfl := eq_allBelow_of_walk hparse hwalk
  generalize htargets : (o.allBelow dir).map (o.exportTarget dir) = targets
  have hnames : (targets.map ExportTarget.names).Nodup := htargets ▸ names_nodup hdir
  have hperm := (schedule targets.length).targets_perm
  have hready' : ∀ task ∈ (schedule targets.length).tasks targets,
      task.target.Ready o.archives destination := by
    intro task htask
    have hmem := hperm.subset (List.mem_map_of_mem htask)
    rw [← htargets] at hmem
    obtain ⟨r, hr, heq⟩ := List.mem_map.mp hmem
    exact heq ▸ hready r hr
  obtain ⟨log, hlog, hrun⟩ :=
    (ExportState.Logged.start hground hstate options.verify).run hground hoptions hready' (by
      have hsame := (hperm.map ExportTarget.names).nodup_iff.mpr hnames
      rwa [List.map_map] at hsame)
    (schedule targets.length).indices_nodup targets.length
  rw [List.nil_append] at hrun
  generalize ExportState.after _ options destination _ _ = s at hrun ⊢
  have hlogged : log.map ExportAttempt.target =
      ((schedule targets.length).tasks targets).map ExportTask.target := by
    rw [← hlog, List.map_map]
    rfl
  obtain ⟨summary, hsummary, hsublist, hfailures⟩ := ExportSummary.exists_ofResults destination
    fun path result hresult => by
      obtain ⟨a, ha, -, rfl⟩ := (hrun.mem_inOrder hlog).mp hresult
      exact hrun.possible.ne_cancelled ha
  refine ⟨summary, log, hlogged, hlogged ▸ htargets.symm ▸ hperm, hrun.tried.disk, hsummary,
    hrun.possible, ?_, ?_⟩
  · rw [ExportState.map_fst_inOrder (hrun.exists_result hlog), ← htargets,
      List.map_map] at hsublist
    exact hsublist
  · intro path
    rw [hfailures]
    constructor
    · rintro ⟨result, hresult, hfailed⟩
      obtain ⟨a, ha, hpath, rfl⟩ := (hrun.mem_inOrder hlog).mp hresult
      exact ⟨a, ha, hpath, hfailed⟩
    · rintro ⟨a, ha, hpath, hfailed⟩
      exact ⟨a.result, (hrun.mem_inOrder hlog).mpr ⟨a, ha, hpath, rfl⟩, hfailed⟩

section

variable {d made : Disk} {place : Location} {verify : Bool} {outcome : ExportOutcome}
  {summary : ExportSummary} {log : ExportLog} {a : ExportAttempt}

theorem eq_of_mem_allBelow (hdir : dir.Canonical) (hr : r ∈ o.allBelow dir)
    (hr' : r' ∈ o.allBelow dir) (h : r'.path = r.path) : r' = r := by
  have hseen := ((mem_allBelow hdir).mp hr).2
  have hseen' := ((mem_allBelow hdir).mp hr').2
  rw [h, hseen] at hseen'
  exact (Option.some.inj hseen').symm

theorem Exported.exists_mem (h : o.Exported d made place verify dir outcome summary log)
    (hr : r ∈ o.allBelow dir) : ∃ a ∈ log, a.target = o.exportTarget dir r :=
  List.mem_map.mp (h.targets.symm.subset (List.mem_map_of_mem hr))

theorem Exported.exists_of_mem (h : o.Exported d made place verify dir outcome summary log)
    (ha : a ∈ log) : ∃ r ∈ o.allBelow dir, a.target = o.exportTarget dir r := by
  obtain ⟨r, hr, heq⟩ := List.mem_map.mp (h.targets.subset (List.mem_map_of_mem ha))
  exact ⟨r, hr, heq.symm⟩

/-- A file is written if it is not among the failures. -/
theorem Exported.isOk_iff (h : o.Exported d made place verify dir outcome summary log)
    (hdir : dir.Canonical) (hr : r ∈ o.allBelow dir) (ha : a ∈ log)
    (htarget : a.target = o.exportTarget dir r) :
    a.result.isOk = true ↔ r.path ∉ summary.failures.map ExportFailure.path := by
  have hnodup : (log.map ExportAttempt.target).Nodup :=
    h.targets.nodup_iff.mpr (.of_map _ (names_nodup hdir))
  rw [h.failures]
  constructor
  · rintro hok ⟨b, hb, hpath, hfailed⟩
    obtain ⟨r', hr', htarget'⟩ := h.exists_of_mem hb
    rw [htarget'] at hpath
    obtain rfl := eq_of_mem_allBelow hdir hr hr' hpath
    obtain rfl := List.inj_on_of_nodup_map hnodup hb ha (htarget'.trans htarget.symm)
    exact hfailed hok
  · intro hnone
    by_contra hfailed
    exact hnone ⟨a, ha, by rw [htarget]; rfl, hfailed⟩

/-- The files below the destination are those that were written. -/
theorem Exported.content?_iff (h : o.Exported d made place verify dir outcome summary log)
    (hdir : dir.Canonical) {names : List String} (hne : names ≠ []) {content : ByteArray} :
    outcome.disk.content? (place ++ names) = some content ↔
      ∃ r ∈ o.allBelow dir, r.path ∉ summary.failures.map ExportFailure.path ∧
        (o.exportTarget dir r).names = names ∧ r.extractBytes d verify false = .ok content := by
  rw [h.disk.file names content hne, ExportLog.mem_tried]
  constructor
  · rintro ⟨a, ha, hfree, hnames, hbytes⟩
    obtain ⟨r, hr, htarget⟩ := h.exists_of_mem ha
    have hok := (h.possible.isOk_iff ha).mpr ⟨hfree, content, hbytes⟩
    rw [htarget] at hbytes
    rw [ExportAttempt.names, htarget] at hnames
    exact ⟨r, hr, (h.isOk_iff hdir hr ha htarget).mp hok, hnames, hbytes⟩
  · rintro ⟨r, hr, hwritten, hnames, hbytes⟩
    obtain ⟨a, ha, htarget⟩ := h.exists_mem hr
    have hok := (h.isOk_iff hdir hr ha htarget).mpr hwritten
    refine ⟨a, ha, ((h.possible.isOk_iff ha).mp hok).1, ?_, ?_⟩
    · rw [ExportAttempt.names, htarget, hnames]
    · rw [htarget]
      exact hbytes

theorem Exported.fileContent_eq {destination : String}
    (h : o.Exported d made place verify dir outcome summary log) (hdir : dir.Canonical)
    (hvacant : made.Vacant destination place) (hr : r ∈ o.allBelow dir)
    (hready : (o.exportTarget dir r).Ready o.archives destination)
    (hwritten : r.path ∉ summary.failures.map ExportFailure.path) :
    ∃ content, r.extractBytes d verify false = .ok content ∧
      outcome.disk.fileContent ((o.exportTarget dir r).path destination) = .ok content := by
  obtain ⟨a, ha, htarget⟩ := h.exists_mem hr
  obtain ⟨-, content, hbytes⟩ :=
    (h.possible.isOk_iff ha).mp ((h.isOk_iff hdir hr ha htarget).mpr hwritten)
  rw [htarget] at hbytes
  have hcontent := (h.content?_iff hdir hready.named).mpr ⟨r, hr, hwritten, rfl, hbytes⟩
  obtain ⟨id, hnode, hid⟩ := Disk.content?_eq_some_iff.mp hcontent
  have hfind := (h.disk.outside.extends hvacant).find hvacant.find
  obtain ⟨front, name, hnames⟩ :=
    (List.eq_nil_or_concat' (o.exportTarget dir r).names).resolve_left hready.named
  have hfits := hready.fits
  rw [hnames] at hnode hfits
  have hthere : outcome.disk.node? (place ++ (front ++ [name])) ≠ none := by simp [hnode]
  refine ⟨content, hbytes, ?_⟩
  rw [hready.path, hnames, Disk.fileContent,
    Disk.find_below hfind hfits (h.disk.passable hthere) hnode (by simp)]
  exact congrArg Except.ok hid

/-- A file that can be extracted is written if no other one is in its way. -/
theorem Exported.not_mem_failures (h : o.Exported d made place verify dir outcome summary log)
    (hdir : dir.Canonical) (hr : r ∈ o.allBelow dir)
    (hbytes : ∃ content, r.extractBytes d verify false = .ok content)
    (hapart : ∀ r' ∈ o.allBelow dir,
      ¬ Nested (o.exportTarget dir r').names (o.exportTarget dir r).names) :
    r.path ∉ summary.failures.map ExportFailure.path := by
  obtain ⟨a, ha, htarget⟩ := h.exists_mem hr
  rw [← h.isOk_iff hdir hr ha htarget, h.possible.isOk_iff ha, htarget]
  refine ⟨?_, hbytes⟩
  by_contra hblocked
  obtain ⟨front, rest, hlog⟩ := List.append_of_mem ha
  obtain ⟨b, hb, hobstructs⟩ := (h.possible.not_free_iff hlog).mp (Bool.not_eq_true _ ▸ hblocked)
  obtain ⟨r', hr', htarget'⟩ := h.exists_of_mem (hlog ▸ List.mem_append_left _ hb)
  rw [ExportAttempt.names, ExportAttempt.names, htarget, htarget'] at hobstructs
  exact hapart r' hr' (hobstructs.imp And.right And.right)

section Extracting

variable (hextracts : ∀ r ∈ o.allBelow dir, ∃ content, r.extractBytes d verify false = .ok content)

include hextracts

/-- Where every file can be extracted, those are written that had nothing in their way. -/
theorem Exported.isOk_iff_free (h : o.Exported d made place verify dir outcome summary log)
    (ha : a ∈ log) : a.result.isOk = true ↔ a.free = true := by
  obtain ⟨r, hr, htarget⟩ := h.exists_of_mem ha
  have hbytes : ∃ content, (o.exportTarget dir r).file.extractBytes d verify false = .ok content :=
    hextracts r hr
  rw [h.possible.isOk_iff ha, htarget]
  simpa using fun _ => hbytes

/-- Then something that was written is in the way of a file that fails. -/
theorem Exported.exists_obstacle (h : o.Exported d made place verify dir outcome summary log)
    (hdir : dir.Canonical) (hr : r ∈ o.allBelow dir)
    (hfailed : r.path ∈ summary.failures.map ExportFailure.path) :
    ∃ front a rest b r', log = front ++ a :: rest ∧ a.target = o.exportTarget dir r ∧ b ∈ front ∧
      b.target = o.exportTarget dir r' ∧ r' ∈ o.allBelow dir ∧
      r'.path ∉ summary.failures.map ExportFailure.path ∧
      Nested (o.exportTarget dir r').names (o.exportTarget dir r).names := by
  obtain ⟨a, ha, htarget⟩ := h.exists_mem hr
  have hfree : a.free = false := by
    rw [← Bool.not_eq_true, ← h.isOk_iff_free hextracts ha, h.isOk_iff hdir hr ha htarget]
    exact not_not.mpr hfailed
  obtain ⟨front, rest, hlog⟩ := List.append_of_mem ha
  obtain ⟨b, hb, hobstructs⟩ := (h.possible.not_free_iff hlog).mp hfree
  have hblog : b ∈ log := hlog ▸ List.mem_append_left _ hb
  obtain ⟨r', hr', htarget'⟩ := h.exists_of_mem hblog
  rw [← h.isOk_iff_free hextracts hblog, ← and_or_left, ExportAttempt.names, ExportAttempt.names,
    htarget, htarget'] at hobstructs
  exact ⟨front, a, rest, b, r', hlog, htarget, hb, htarget', hr',
    (h.isOk_iff hdir hr' hblog htarget').mp hobstructs.1, hobstructs.2⟩

/-- So a file fails if another one was written that lies on the way to it, or that it lies on the
way to. -/
theorem Exported.mem_failures_iff (h : o.Exported d made place verify dir outcome summary log)
    (hdir : dir.Canonical) (hr : r ∈ o.allBelow dir) :
    r.path ∈ summary.failures.map ExportFailure.path ↔
      ∃ r' ∈ o.allBelow dir, r'.path ∉ summary.failures.map ExportFailure.path ∧
        Nested (o.exportTarget dir r').names (o.exportTarget dir r).names := by
  constructor
  · intro hfailed
    obtain ⟨_, _, _, _, r', _, _, _, _, hr', hwritten', hbegins⟩ :=
      h.exists_obstacle hextracts hdir hr hfailed
    exact ⟨r', hr', hwritten', hbegins⟩
  · rintro ⟨r', hr', hwritten', hbegins⟩
    obtain ⟨a, ha, htarget⟩ := h.exists_mem hr
    obtain ⟨b, hb, htarget'⟩ := h.exists_mem hr'
    have hok' := (h.isOk_iff hdir hr' hb htarget').mpr hwritten'
    rw [← htarget, ← htarget'] at hbegins
    by_contra hwritten
    have hok := (h.isOk_iff hdir hr ha htarget).mpr hwritten
    rcases hbegins with hbegins | hbegins
    · exact h.possible.apart hb ha hok' hok hbegins
    · exact h.possible.apart ha hb hok hok' hbegins

end Extracting

end

end Overlay

theorem MountTable.Sound.archive_eq {t : MountTable} (h : t.Sound) {a b : Archive}
    (ha : a ∈ t.overlay.archives) (hb : b ∈ t.overlay.archives) (hid : b.id = a.id) : b = a := by
  obtain ⟨m, hm, rfl⟩ := List.mem_map.mp ha
  obtain ⟨n, hn, rfl⟩ := List.mem_map.mp hb
  exact congrArg Mount.archive (h.mount_eq hn hm hid)

theorem Disk.node?_blank {place : Location} (hne : place ≠ []) : blank.node? place = none := by
  cases place with
  | nil => exact absurd rfl hne
  | cons name rest => rfl

theorem Disk.exists_vacant_out :
    ∃ made, Disk.blank.makeDirectories "/out" = (made, .ok ()) ∧ made.Vacant "/out" ["out"] := by
  have hout : DisplayPath.parse "out" = .ok ⟨["out"]⟩ := rfl
  have hplace : Disk.Fits "/" ["out"] := ⟨DisplayPath.ordinary_of_parse hout, by decide, by decide⟩
  exact Disk.exists_vacant (Disk.find_root .blank) hplace (by simp)
    (fun front hne _ => .inl ⟨Disk.node?_blank hne, rfl⟩) (fun more => Disk.node?_blank (by simp))

/-- A schedule from the last file to the first. -/
def Schedule.backwards (total : Nat) : Schedule total where
  steps := (List.range total).reverse.map fun index => (index, 0)
  complete := by simp [Function.comp_def, List.reverse_perm]

namespace Disk

end Disk

end ArchiveOverlay
