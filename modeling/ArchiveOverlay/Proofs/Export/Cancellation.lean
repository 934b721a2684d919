import ArchiveOverlay.Proofs.Export.Sharing

namespace ArchiveOverlay

namespace Disk

theorem SameOutside.trans {s t d : Disk} {place : Location} (hs : t.SameOutside s place)
    (hd : s.SameOutside d place) : t.SameOutside d place where
  workingDirectory := hs.workingDirectory.trans hd.workingDirectory
  rights := hs.rights.trans hd.rights
  node := fun location hlocation => (hs.node location hlocation).trans (hd.node location hlocation)
  content := fun location hlocation =>
    (hs.content location hlocation).trans (hd.content location hlocation)

section

variable {d s : Disk} {destination : String} {top place : Location} {names : List String}
  {id : FileId} {extracted : Disk → Except Error Nat × ByteArray} {result : Except Error Nat}

theorem SameOutside.write (h : s.SameOutside d top)
    (hid : ∀ location, Outside top location → s.node? location ≠ some (.file id))
    (content : ByteArray) : (s.write id content).SameOutside d top := by
  refine SameOutside.trans ⟨by simp, by simp, by simp, fun location hlocation => ?_⟩ h
  apply content?_congr (node?_write _ _ _ location)
  intro other hnode
  rw [content_write_of_ne]
  rintro rfl
  exact hid location hlocation hnode

theorem SameOutside.erase (h : s.SameOutside d top) (hne : names ≠ []) :
    (s.erase (top ++ names)).SameOutside d top := by
  have herased : (s.erase (top ++ names)).SameOutside s top := by
    refine ⟨rfl, rfl, fun location hlocation => ?_, fun location hlocation => ?_⟩
    · rw [node?_erase (by simp [hne]), if_neg (hlocation names hne)]
    · rw [content?_erase (by simp [hne]), if_neg (hlocation names hne)]
  exact herased.trans h

theorem exists_ancestorsFrom_eq (hdestination : destination ≠ "")
    (hnames : ∀ name ∈ names, Ordinary name) (fuel : Nat) :
    ∃ inner outer, HostPath.ancestorsFrom fuel
        (HostPath.trimmed (names.foldl HostPath.join destination)) = inner ++ outer ∧
      (∀ path ∈ inner, ∃ front, front ≠ [] ∧ front <+: names ∧
        path = front.foldl HostPath.join destination) ∧
      (outer = [] ∨
        ∃ left, outer = HostPath.ancestorsFrom left (HostPath.trimmed destination)) := by
  -- From the last name on, each path is one name shorter, until the destination is left.
  induction names using List.reverseRecOn generalizing fuel with
  | nil => exact ⟨[], _, rfl, by simp, .inr ⟨fuel, rfl⟩⟩
  | append_singleton names name ih =>
      rw [HostPath.trimmed_foldl_join hnames (by simp)]
      have hself : ∃ front, front ≠ [] ∧ front <+: names ++ [name] ∧
          (names ++ [name]).foldl HostPath.join destination =
            front.foldl HostPath.join destination :=
        ⟨names ++ [name], by simp, List.prefix_refl _, rfl⟩
      cases fuel with
      | zero => exact ⟨[_], [], rfl, List.forall_mem_singleton.mpr hself, .inl rfl⟩
      | succ fuel =>
          obtain ⟨inner, outer, hsplit, hinner, houter⟩ :=
            ih (fun other hother => hnames other (List.mem_append_left _ hother)) fuel
          refine ⟨_ :: inner, outer, ?_, List.forall_mem_cons.mpr ⟨hself, ?_⟩, houter⟩
          · rw [ancestorsFrom_below hdestination hnames, hsplit, List.cons_append]
          · intro path hpath
            obtain ⟨front, hne, hbegins, hfront⟩ := hinner path hpath
            exact ⟨front, hne, hbegins.trans (List.prefix_append _ _), hfront⟩

/-- For a file below a destination that is there, directories are made below it only. -/
theorem Plain.withParents (h : d.Plain destination top) (hnames : ∀ name ∈ names, Ordinary name)
    (hne : names ≠ []) :
    (d.withParents (names.foldl HostPath.join destination)).1.SameOutside d top := by
  obtain ⟨front, name, rfl⟩ := (List.eq_nil_or_concat' names).resolve_left hne
  have hgrown := withParents_grown h.proper ((front ++ [name]).foldl HostPath.join destination)
  have hdestination := (find_eq_ok_iff.mp h.find).1.ne_empty
  have hfront : ∀ other ∈ front, Ordinary other :=
    fun other hother => hnames other (by simp [hother])
  have hlonger := (HostPath.prefix_foldl_join hfront destination).2
  have hdir : front.foldl HostPath.join destination ≠ "" := by
    intro hempty
    have hpositive : 0 < destination.length := by
      rw [Nat.pos_iff_ne_zero]
      simpa using hdestination
    rw [hempty, String.length_empty] at hlonger
    omega
  have hparent : HostPath.parent? ((front ++ [name]).foldl HostPath.join destination) =
      some (HostPath.trimmed (front.foldl HostPath.join destination)) := by
    rw [List.foldl_concat]
    exact HostPath.parent?_join hdir (hnames name (by simp))
  have hcontent : ∀ location,
      (d.withParents ((front ++ [name]).foldl HostPath.join destination)).1.node? location =
        d.node? location → _ := fun location hnode =>
    content?_congr hnode fun id _ => content_congr hgrown.contents id
  suffices hsame : ∀ location, Outside top location → _ from
    ⟨hgrown.kept.workingDirectory, hgrown.rights, hsame, fun location hlocation =>
      hcontent location (hsame location hlocation)⟩
  intro location hlocation
  have hslashless := slashless_ancestorsFrom
    (HostPath.trimmed (front.foldl HostPath.join destination)).length
    (HostPath.withoutLastSlashes_parent hparent)
  obtain ⟨inner, outer, hsplit, hinner, houter⟩ := exists_ancestorsFrom_eq hdestination hfront
    (HostPath.trimmed (front.foldl HostPath.join destination)).length
  rw [Disk.withParents, hparent] at hgrown ⊢
  dsimp only [makeDirectories, HostPath.ancestors] at hgrown ⊢
  rw [hsplit] at hslashless hgrown ⊢
  -- The destination is there, so nothing has to be made around it.
  have hthere : (d.makeDirectoriesFrom outer).1 = d := by
    rcases houter with rfl | ⟨left, rfl⟩
    · rfl
    · rw [makeDirectoriesFrom_trimmed h.find]
  have hslashlessInner : Slashless inner := fun path hpath =>
    hslashless path (List.mem_append_left _ hpath)
  rcases makeDirectoriesFrom_added h.proper hslashlessInner hthere location with
    hsame | ⟨-, path, hpath, hfind⟩
  · exact hsame
  · obtain ⟨below, hbelow, hbegins, rfl⟩ := hinner path hpath
    have hordinary : ∀ other ∈ below, Ordinary other := fun other hother =>
      hfront other (hbegins.subset hother)
    exact absurd ((h.grown hgrown).locate_eq hordinary hbelow (locate_of_find hfind))
      (hlocation below hbelow)

/-- A file that is opened where there was none has no other name. -/
theorem Plain.opens_new (h : d.Plain destination top) (hnames : ∀ name ∈ names, Ordinary name)
    (hne : names ≠ []) (hfree : ∀ id, d.node? (top ++ names) ≠ some (.file id))
    (hs : d.Opens (names.foldl HostPath.join destination) s place id) :
    place = top ++ names ∧ id ≠ .null ∧ ∀ location, d.node? location ≠ some (.file id) := by
  have hplace := h.place_eq hnames hne hs
  have hgrown := withParents_grown h.proper (names.foldl HostPath.join destination)
  rcases hs.created.before with ⟨-, hnull, hnew⟩ | hthere
  · exact ⟨hplace, hnull, fun location hnode => hnew location (hgrown.kept.node _ _ hnode)⟩
  · rw [hplace] at hthere
    rcases hgrown.added _ _ hthere with hdirectory | hbefore
    · cases hdirectory
    · exact absurd hbefore (hfree id)

theorem Plain.opens_sameOutside (h : d.Plain destination top)
    (hnames : ∀ name ∈ names, Ordinary name) (hne : names ≠ [])
    (hfree : ∀ id, d.node? (top ++ names) ≠ some (.file id))
    (hs : d.Opens (names.foldl HostPath.join destination) s place id) : s.SameOutside d top := by
  obtain ⟨rfl, -, hnew⟩ := h.opens_new hnames hne hfree hs
  have hmade := h.withParents hnames hne
  have hnode : ∀ location, Outside top location →
      s.node? location =
        (d.withParents (names.foldl HostPath.join destination)).1.node? location :=
    fun location hlocation => hs.created.other location (hlocation names hne)
  refine SameOutside.trans ⟨hs.created.kept.workingDirectory, hs.created.rights, hnode, ?_⟩ hmade
  intro location hlocation
  apply content?_congr (hnode location hlocation)
  intro other hother
  apply hs.created.content
  rintro rfl
  exact hnew location (hmade.node location hlocation ▸ hother)

/-- When a file is opened below a destination, nothing changes outside of it. -/
theorem Plain.prepare (h : d.Plain destination top) (hnames : ∀ name ∈ names, Ordinary name)
    (hne : names ≠ []) (hfree : ∀ id, d.node? (top ++ names) ≠ some (.file id)) :
    (Destination.prepare d (names.foldl HostPath.join destination)).1.SameOutside d top := by
  rcases prepare_cases h.proper (names.foldl HostPath.join destination) with
    ⟨fault, hprepare, -⟩ | ⟨s, place, id, hs⟩
  · rw [hprepare]
    exact h.withParents hnames hne
  · rw [hs.prepare]
    exact h.opens_sameOutside hnames hne hfree hs

theorem Plain.name_eq (h : d.Plain destination top) (hnames : ∀ name ∈ names, Ordinary name)
    (hne : names ≠ []) (hs : d.Opens (names.foldl HostPath.join destination) s place id)
    {name : Location} {node : Node}
    (hname : s.locate (names.foldl HostPath.join destination) false = .ok ⟨name, some node⟩) :
    name = top ++ names :=
  (h.opens hs).locate_eq hnames hne hname

theorem Delivers.sameOutside
    (h : d.Delivers (names.foldl HostPath.join destination) extracted s result)
    (hplain : d.Plain destination top) (hnames : ∀ name ∈ names, Ordinary name) (hne : names ≠ [])
    (hfree : ∀ id, d.node? (top ++ names) ≠ some (.file id)) : s.SameOutside d top := by
  have hwritten : ∀ {t : Disk} {place : Location} {id : FileId},
      d.Opens (names.foldl HostPath.join destination) t place id → ∀ content,
      (t.write id content).SameOutside d top := by
    intro t place id ht content
    have hopened := hplain.opens_sameOutside hnames hne hfree ht
    refine hopened.write (fun location hlocation => ?_) content
    rw [hopened.node location hlocation]
    exact (hplain.opens_new hnames hne hfree ht).2.2 location
  cases h with
  | refused => exact hplain.withParents hnames hne
  | written hs => exact hwritten hs _
  | left hs => exact hwritten hs _
  | removed hs _ hname =>
      rw [hplain.name_eq hnames hne hs hname]
      exact (hwritten hs _).erase hne

/-- The file that was opened is there as a whole, or it could not be taken away. -/
theorem Delivers.of_opened
    (h : d.Delivers (names.foldl HostPath.join destination) extracted s result)
    (hplain : d.Plain destination top) (hnames : ∀ name ∈ names, Ordinary name) (hne : names ≠ [])
    (hfree : ∀ id, d.node? (top ++ names) ≠ some (.file id))
    (hid : id ∈ (d.openedFor (names.foldl HostPath.join destination)).map Prod.snd)
    (hnode : s.node? place = some (.file id)) :
    place = top ++ names ∧ s.find (names.foldl HostPath.join destination) = .ok (place, .file id) ∧
      ((∃ t n, t.SameOutside d top ∧ extracted t = (.ok n, s.content id)) ∨
        d.rights.remove place = false) := by
  -- The file is new, so it has no other name.
  have hplace : ∀ {t : Disk} {opened : Location},
      d.Opens (names.foldl HostPath.join destination) t opened id →
      t.node? place = some (.file id) → opened = top ++ names ∧ place = opened := by
    intro t opened ht hthere
    obtain ⟨hopened, -, hnew⟩ := hplain.opens_new hnames hne hfree ht
    refine ⟨hopened, ?_⟩
    by_contra hother
    rw [ht.created.other place hother] at hthere
    rcases (withParents_grown hplain.proper _).added _ _ hthere with hdirectory | hbefore
    · cases hdirectory
    · exact hnew place hbefore
  cases h with
  | refused hopened =>
      rw [hopened] at hid
      cases hid
  | @written t opened id' n content hs hextracted =>
      obtain rfl : id = id' := by simpa [hs.openedFor_eq] using hid
      rw [node?_write] at hnode
      obtain ⟨hopened, rfl⟩ := hplace hs hnode
      have hnull := (hplain.opens_new hnames hne hfree hs).2.1
      refine ⟨hopened, by rw [find_write, hs.find], .inl ⟨t, n, ?_, ?_⟩⟩
      · exact hplain.opens_sameOutside hnames hne hfree hs
      · rw [hextracted, content_write _ _ hnull]
  | @left t opened name node id' e content hs _ hname hrights =>
      obtain rfl : id = id' := by simpa [hs.openedFor_eq] using hid
      rw [node?_write] at hnode
      obtain ⟨hopened, rfl⟩ := hplace hs hnode
      rw [hplain.name_eq hnames hne hs hname, ← hopened] at hrights
      exact ⟨hopened, by rw [find_write, hs.find], .inr hrights⟩
  | @removed t opened name node id' e content hs _ hname hrights =>
      obtain rfl : id = id' := by simpa [hs.openedFor_eq] using hid
      rw [node?_erase (hs.name_ne_nil hname), node?_write] at hnode
      split at hnode
      · cases hnode
      next hother =>
        obtain ⟨hopened, rfl⟩ := hplace hs hnode
        exact absurd (hopened.trans (hplain.name_eq hnames hne hs hname).symm) hother

theorem Delivers.ne_cancelled {path : String} (h : d.Delivers path extracted s result)
    (hextracted : ∀ s, (extracted s).1 ≠ .error .cancelled) : result ≠ .error .cancelled := by
  cases h with
  | refused => simp
  | written => simp
  | left _ herror =>
      rintro ⟨⟩
      exact hextracted _ (congrArg Prod.fst herror)
  | removed _ herror =>
      rintro ⟨⟩
      exact hextracted _ (congrArg Prod.fst herror)

end

end Disk

/-- That archives can be told apart, and that none is read from where an export goes to. -/
structure ReadApart (archives : List Archive) (d made : Disk) (top : Location) : Prop where
  ids : ∀ a ∈ archives, ∀ b ∈ archives, b.id = a.id → b = a
  fileAt : ∀ a ∈ archives, ∀ path ∈ a.backing.paths, ∀ s : Disk, s.SameOutside made top →
    s.fileAt path = d.fileAt path

namespace ReadApart

variable {archives : List Archive} {d made s : Disk} {top : Location}

theorem sameContainers (h : ReadApart archives d made top) (hs : s.SameOutside made top) :
    s.SameContainers made archives := by
  intro a ha reader path hbacking
  have hread := h.fileAt a ha path (by simp [hbacking, Backing.paths])
  rw [hread s hs, hread made (.refl made top)]

theorem extractBytes_eq (h : ReadApart archives d made top) (hs : s.SameOutside made top)
    {r : Resolved} (hr : r.archive ∈ archives) (verify : Bool) :
    r.extractBytes s verify false = r.extractBytes d verify false := by
  have hsource := Archive.source_of_fileAt (fun path hpath => h.fileAt _ hr path hpath s hs)
    r.entry.handle
  rw [Resolved.extractBytes, Resolved.extractBytes, Resolved.extract, Resolved.extract, hsource]

end ReadApart

namespace ExportState

section

variable {σ : Type} {archives : List Archive} {d made : Disk} {destination : String}
  {top : Location} {s : ExportState σ} {verify : Bool} {tried : List ExportTarget}
  {task : ExportTask}

/-- An export that nobody has cancelled so far. All files below the destination are whole, unless
they could not be taken away, and each is found under the path of one that has been tried. -/
structure Underway (s : ExportState σ) (archives : List Archive) (d made : Disk)
    (destination : String) (top : Location) (verify : Bool) (tried : List ExportTarget) :
    Prop where
  plain : s.disk.Plain destination top
  outside : s.disk.SameOutside made top
  caches : ∀ job, (s.caches job).Sound archives made
  whole : ∀ names id, s.disk.node? (top ++ names) = some (.file id) →
    ∃ t ∈ tried, t.names = names ∧
      s.disk.find (t.path destination) = .ok (top ++ names, .file id) ∧
        (t.file.extractBytes d verify false = .ok (s.disk.content id) ∨
          made.rights.remove (top ++ names) = false)
  results : ∀ index result, s.results index = some result → result ≠ .error .cancelled

/-- The step of an export that is not cancelled. -/
theorem Underway.step {s : ExportState Unit}
    (h : s.Underway archives d made destination top verify tried)
    (hapart : ReadApart archives d made top) (ht : task.target.file.archive ∈ archives)
    (hnames : ∀ name ∈ task.target.names, Ordinary name) (hne : task.target.names ≠ [])
    (hnew : ∀ t ∈ tried, t.names ≠ task.target.names) (total : Nat) :
    (s.exportFile (.plain verify) destination total task).Underway archives d made destination top
      verify (tried ++ [task.target]) := by
  have hdestination := (Disk.find_eq_ok_iff.mp h.plain.find).1.ne_empty
  have hpath := ExportTarget.path_eq hne hnames hdestination
  have hfree : ∀ id, s.disk.node? (top ++ task.target.names) ≠ some (.file id) := by
    intro id hnode
    obtain ⟨t, ht, hsame, -⟩ := h.whole _ _ hnode
    exact hnew t ht hsame
  have hsame := hapart.sameContainers ((h.plain.prepare hnames hne hfree).trans h.outside)
  obtain ⟨hextract, hsound⟩ :=
    writeFile_spec h.caches hapart.ids ht (hpath ▸ hsame) (.plain verify) task.job
  have hdelivers := task.target.file.delivers_extractToFileBy h.plain.proper verify
    (.unlimited false) s.state (task.target.path destination)
  have hkept := (s.writeFile_kept (.plain verify) task.job task.target.file
    (task.target.path destination)).2
  rcases hwrite : s.writeFile (.plain verify) task.job task.target.file
    (task.target.path destination) with ⟨s', result⟩
  rw [hwrite] at hextract hsound hkept
  have hexport : s.exportFile (.plain verify) destination total task = _ :=
    exportFile_written rfl hwrite total
  rw [show task.target.file.extractToFileBy s.disk verify (.unlimited false) s.state
    (task.target.path destination) = (s'.disk, result) from hextract, hpath] at hdelivers
  rw [hexport, record]
  refine ⟨hdelivers.plain h.plain hnames hne, ?_, hsound, ?_, ?_⟩
  · exact (hdelivers.sameOutside h.plain hnames hne hfree).trans h.outside
  · intro names id hnode
    dsimp only at hnode ⊢
    -- The file is the one that has been opened, or it was there before.
    by_cases hid : id ∈ (s.disk.openedFor
        (task.target.names.foldl HostPath.join destination)).map Prod.snd
    · obtain ⟨hplace, hfind, hwhole⟩ := hdelivers.of_opened h.plain hnames hne hfree hid hnode
      refine ⟨task.target, by simp, (List.append_cancel_left hplace).symm, hpath ▸ hfind, ?_⟩
      rcases hwhole with ⟨disk, n, hdisk, hextracted⟩ | hrights
      · left
        obtain ⟨hok, hcontent⟩ := Prod.mk.inj hextracted
        obtain ⟨-, -, hbytes⟩ := Resolved.extractBytes_of_extract (Prod.ext hok rfl)
        rwa [hcontent, hapart.extractBytes_eq (hdisk.trans h.outside) ht] at hbytes
      · rw [h.outside.rights] at hrights
        exact .inr hrights
    · obtain ⟨t, ht, hself, hfind, hwhole⟩ :=
        h.whole names id (hdelivers.node?_of_file h.plain.proper hid hnode)
      have hholds := hdelivers.holds ⟨h.plain.proper, hfind, rfl⟩ hid
      refine ⟨t, by simp [ht], hself, hholds.find, ?_⟩
      rwa [hholds.content]
  · intro index outcome hresult
    dsimp only at hresult
    split at hresult
    · cases hresult
      exact hdelivers.ne_cancelled fun disk => task.target.file.extract_ne_cancelled disk verify
    · rw [hkept] at hresult
      exact h.results index outcome hresult

/-- The run of an export that is not cancelled. -/
theorem Underway.after {s : ExportState Unit} {tasks : List ExportTask}
    (h : s.Underway archives d made destination top verify tried)
    (hapart : ReadApart archives d made top)
    (htasks : ∀ task ∈ tasks, task.target.file.archive ∈ archives ∧
      (∀ name ∈ task.target.names, Ordinary name) ∧ task.target.names ≠ [])
    (hnodup : ((tried ++ tasks.map ExportTask.target).map ExportTarget.names).Nodup)
    (total : Nat) :
    (s.after (.plain verify) destination total tasks).Underway archives d made destination top
      verify (tried ++ tasks.map ExportTask.target) := by
  induction tasks generalizing s tried with
  | nil =>
      rw [List.map_nil, List.append_nil]
      exact h
  | cons task rest ih =>
      obtain ⟨harchive, hnames, hne⟩ := htasks task (by simp)
      have hnew : ∀ t ∈ tried, t.names ≠ task.target.names := by
        rw [List.map_append, List.nodup_append] at hnodup
        intro t ht
        exact hnodup.2.2 _ (List.mem_map_of_mem ht) _ (by simp)
      rw [List.map_cons, List.append_cons] at hnodup ⊢
      rw [after_cons]
      exact ih (h.step hapart harchive hnames hne hnew total)
        (fun other hother => htasks other (by simp [hother])) hnodup

end

end ExportState

/-- Cancelled before the start, or else with a report, counted from one. -/
def ExportOptions.stopping (verify : Bool) (n : Nat) : ExportOptions Bool :=
  .cancelling verify fun report => decide (report.current = n)

namespace ExportState

/-- That two exports have come to the same, whatever their sinks go by. -/
structure Same {σ τ : Type} (s : ExportState σ) (s' : ExportState τ) : Prop where
  disk : s.disk = s'.disk
  caches : s.caches = s'.caches
  progress : s.progress = s'.progress
  results : s.results = s'.results

section

variable {σ τ : Type} {s : ExportState σ} {s' : ExportState τ} {options : ExportOptions σ}
  {options' : ExportOptions τ} {good : σ → Prop} {good' : τ → Prop}

/-- Sinks that are willing make no difference. -/
theorem Same.writeFile (h : s.Same s') (hsink : options.sink.WillingIn good)
    (hsink' : options'.sink.WillingIn good') (hverify : options.verify = options'.verify)
    (hstate : good s.state) (hstate' : good' s'.state) (job : Nat) (r : Resolved) (path : String) :
    (s.writeFile options job r path).1.Same (s'.writeFile options' job r path).1 ∧
      (s.writeFile options job r path).2 = (s'.writeFile options' job r path).2 ∧
      good (s.writeFile options job r path).1.state := by
  obtain ⟨hdisk, hcaches, hprogress, hresults⟩ := h
  rw [ExportState.writeFile, ExportState.writeFile, hdisk, hcaches, hverify]
  rcases Destination.prepare s'.disk path with ⟨disk, fault | dest⟩
  · exact ⟨⟨rfl, rfl, hprogress, hresults⟩, rfl, hstate⟩
  · obtain ⟨hresult, haccepted, hgood, -⟩ := r.deliver_of_willing hsink hsink' options'.verify
      ((s'.caches job).source disk r.archive r.entry.handle).1 hstate hstate'
    dsimp only
    refine ⟨⟨?_, rfl, hprogress, hresults⟩, hresult, hgood⟩
    rw [hresult, haccepted]

end

variable {s : ExportState Bool} {destination : String} {verify : Bool} {total n : Nat}
  {tasks : List ExportTask}

/-- As long as it is not cancelled, an export does what it does without a cancellation. -/
theorem Same.exportFile {s' : ExportState Unit} (h : s.Same s') (hstate : s.state = false)
    (task : ExportTask) :
    (s.exportFile (.stopping verify n) destination total task).Same
        (s'.exportFile (.plain verify) destination total task) ∧
      (s.exportFile (.stopping verify n) destination total task).state =
        decide (s.progress.length + 1 = n) := by
  have hpoll : (ExportOptions.stopping verify n).sink.poll s.state = (false, s.state) := by
    rw [hstate]
    rfl
  obtain ⟨hsame, hresult, hgoes⟩ :=
    @Same.writeFile _ _ s s' (.stopping verify n) (.plain verify) _ _ h Sink.willingIn_cancellable
      Sink.willing_unlimited.willingIn rfl hstate trivial task.job task.target.file
      (task.target.path destination)
  have hkept := (s.writeFile_kept (.stopping verify n) task.job task.target.file
    (task.target.path destination)).1
  rcases hwrite : s.writeFile (.stopping verify n) task.job task.target.file
    (task.target.path destination) with ⟨t, result⟩
  rcases hwrite' : s'.writeFile (.plain verify) task.job task.target.file
    (task.target.path destination) with ⟨t', result'⟩
  rw [hwrite] at hsame hresult hgoes hkept
  rw [hwrite'] at hsame hresult
  obtain rfl : result = result' := hresult
  have hexport' : s'.exportFile (.plain verify) destination total task = _ :=
    exportFile_written rfl hwrite' total
  rw [exportFile_written hpoll hwrite, hexport', record, record]
  refine ⟨⟨hsame.disk, hsame.caches, ?_, ?_⟩, ?_⟩
  · rw [hsame.progress]
  · rw [hsame.results]
  · have hstate' : t.state = false := hgoes
    have hprogress : t.progress = s.progress := hkept
    simp [ExportOptions.stopping, ExportOptions.cancelling, hstate', hprogress]

end ExportState

theorem ExportSummary.ofResults_cancelled_iff {destination : String}
    {results : List (Path × Except Error Nat)} :
    ofResults destination results = .error .cancelled ↔
      ∃ path, (path, .error .cancelled) ∈ results := by
  rw [ofResults]
  split
  next hany =>
    simp only [true_iff]
    obtain ⟨⟨path, result⟩, hmem, hresult⟩ := List.any_eq_true.mp hany
    dsimp only at hresult
    split at hresult
    · exact ⟨path, hmem⟩
    · cases hresult
  next hnone =>
    refine ⟨fun h => (by cases h), ?_⟩
    rintro ⟨path, hmem⟩
    exact absurd (List.any_eq_true.mpr ⟨_, hmem, rfl⟩) hnone

namespace Overlay

variable {o : Overlay} {d made : Disk} {raw destination : String} {dir : Path}
  {found : List Resolved} {top : Location} {verify : Bool} {n : Nat}
  {schedule : (total : Nat) → Schedule total}

end Overlay

end ArchiveOverlay
