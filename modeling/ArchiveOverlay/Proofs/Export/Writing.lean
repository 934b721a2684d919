import ArchiveOverlay.Export
import ArchiveOverlay.Proofs.Archive.Loading
import ArchiveOverlay.Proofs.Disk.Making

namespace ArchiveOverlay

namespace Disk

/-- That a place is not strictly below another one. -/
def Outside (place location : Location) : Prop :=
  ∀ names, names ≠ [] → location ≠ place ++ names

/-- That two disks differ only strictly below a place. -/
structure SameOutside (s d : Disk) (place : Location) : Prop where
  workingDirectory : s.workingDirectory = d.workingDirectory
  rights : s.rights = d.rights
  node : ∀ location, Outside place location → s.node? location = d.node? location
  content : ∀ location, Outside place location → s.content? location = d.content? location

/-- That a path leads to a directory with nothing in it. -/
structure Vacant (d : Disk) (destination : String) (place : Location) : Prop where
  find : d.find destination = .ok (place, .directory)
  empty : ∀ names, names ≠ [] → d.node? (place ++ names) = none

theorem SameOutside.refl (d : Disk) (place : Location) : d.SameOutside d place :=
  ⟨rfl, rfl, fun _ _ => rfl, fun _ _ => rfl⟩

theorem Vacant.outside {d : Disk} {destination : String} {place location : Location}
    (h : d.Vacant destination place) (hnode : d.node? location ≠ none) :
    Outside place location := by
  rintro names hne rfl
  exact hnode (h.empty names hne)

theorem SameOutside.extends {s d : Disk} {destination : String} {place : Location}
    (h : s.SameOutside d place) (hvacant : d.Vacant destination place) : s.Extends d where
  workingDirectory := h.workingDirectory
  node := by
    intro location node hnode
    rw [h.node location (hvacant.outside (by simp [hnode])), hnode]

/-- A directory that is made along plain names where nothing was has nothing in it. -/
theorem exists_vacant {d : Disk} {base : String} {place : Location} {names : List String}
    (h : d.find base = .ok (place, .directory)) (hfits : Fits base names) (hne : names ≠ [])
    (hfree : d.Free place names) (hnone : ∀ more, d.node? (place ++ names ++ more) = none) :
    ∃ made, d.makeDirectories (names.foldl HostPath.join base) = (made, .ok ()) ∧
      made.Vacant (names.foldl HostPath.join base) (place ++ names) := by
  obtain ⟨made, hmake, hopened⟩ := exists_makeDirectories h hfits hfree
  rw [HostPath.trimmed_foldl_join hfits.ordinary hne] at hmake
  have hfind := (hopened.extends hfree).find h
  refine ⟨made, hmake, ?_, ?_⟩
  · obtain ⟨front, name, rfl⟩ := (List.eq_nil_or_concat' names).resolve_left hne
    have hway : made.Passable place front := fun outer houter hbegins =>
      hopened.passable outer houter (hbegins.trans (List.prefix_append _ _))
    exact find_below hfind hfits hway (hopened.passable _ hne (List.prefix_refl _)) (by simp)
  · intro more hmore
    rw [hopened.other, hnone]
    intro front _ hbegins heq
    rw [List.append_assoc] at heq
    have hlength := hbegins.length_le
    rw [← List.append_cancel_left heq, List.length_append] at hlength
    have hpositive := List.length_pos_iff.mpr hmore
    omega

/-- The file that a path leads to, with what is in it. -/
def fileAt (d : Disk) (path : String) : Except IoFault (Option (FileId × ByteArray)) :=
  (d.find path).map fun (_, node) =>
    match node with
    | .file id => some (id, d.content id)
    | _ => none

/-- That the containers of archives are on one disk where they are on another, with the same
content. -/
def SameContainers (s d : Disk) (archives : List Archive) : Prop :=
  ∀ a ∈ archives, ∀ reader path, a.backing = .zip reader path → s.fileAt path = d.fileAt path

theorem fileAt_congr {d s : Disk} {path : String} (hfind : s.find path = d.find path)
    (hcontent : ∀ place id, d.find path = .ok (place, .file id) → s.content id = d.content id) :
    s.fileAt path = d.fileAt path := by
  rw [fileAt, fileAt, hfind]
  rcases hfound : d.find path with fault | ⟨place, node⟩
  · rfl
  · cases node with
    | file id => simp [Except.map, hcontent place id hfound]
    | directory => rfl
    | link target => rfl

theorem seen_of_fileAt {d s : Disk} {path : String} (h : s.fileAt path = d.fileAt path) :
    s.seen path = d.seen path := by
  have hseen : ∀ disk : Disk, disk.seen path = (disk.fileAt path).map (Option.map Prod.snd) := by
    intro disk
    rw [seen, fileAt]
    rcases disk.find path with fault | ⟨place, node⟩
    · rfl
    · cases node <;> rfl
  rw [hseen, hseen, h]

theorem openContainer_congr {d s : Disk} {path : String} (h : s.fileAt path = d.fileAt path)
    (reader : ContainerReader) : openContainer reader s path = openContainer reader d path := by
  have hopen : ∀ disk : Disk, openContainer reader disk path =
      ((disk.fileAt path).mapError .io).bind fun found =>
        (found.bind fun file => (reader file.2).map (OpenContainer.mk file.1)).elim
          (.error .zip) .ok := by
    intro disk
    rw [openContainer, fileAt]
    rcases disk.find path with fault | ⟨place, id | _ | target⟩
    · rfl
    · simp only [Except.map, Except.mapError, Except.bind, Option.bind_some]
      cases reader (disk.content id) <;> rfl
    · rfl
    · rfl
  rw [hopen, hopen, h]

end Disk

/-- That an archive is read in the same way whatever is put below a place. -/
def Archive.Apart (a : Archive) (d made : Disk) (place : Location) : Prop :=
  ∀ path ∈ a.backing.paths, ∀ s : Disk, s.SameOutside made place → s.find path = d.find path

/-- What an archive is read from is the same file with the same content as before. -/
theorem Archive.Apart.fileAt_eq {a : Archive} {d made s : Disk} {path : String} {place : Location}
    (h : a.Apart d made place)
    (hfiles : ∀ names id, names ≠ [] → made.node? (place ++ names) ≠ some (.file id))
    (hcontents : made.contents = d.contents) (hs : s.SameOutside made place)
    (hpath : path ∈ a.backing.paths) : s.fileAt path = d.fileAt path := by
  apply Disk.fileAt_congr (h path hpath s hs)
  intro location id hfind
  have hnode := Disk.node?_of_find ((h path hpath made (.refl made place)).trans hfind)
  have hnode' := Disk.node?_of_find ((h path hpath s hs).trans hfind)
  have hcontent := hs.content location fun names hne hlocation =>
    hfiles names id hne (hlocation ▸ hnode)
  rw [Disk.content?_of_node? hnode, Disk.content?_of_node? hnode', Option.some.injEq] at hcontent
  rw [hcontent]
  cases id with
  | null => rfl
  | regular number => simp only [Disk.content, hcontents]

theorem Archive.source_of_fileAt {a : Archive} {d s : Disk}
    (h : ∀ path ∈ a.backing.paths, s.fileAt path = d.fileAt path) (handle : Nat) :
    a.source s handle = a.source d handle :=
  source_of_unchanged (fun path hpath => Disk.seen_of_fileAt (h path hpath)) handle

namespace ContainerCache

/-- That a cache holds what is opened anew, too. -/
def Sound (cache : ContainerCache) (archives : List Archive) (d : Disk) : Prop :=
  ∀ id opened, (id, opened) ∈ cache → ∃ a ∈ archives, a.id = id ∧
    ∃ reader path, a.backing = .zip reader path ∧ openContainer reader d path = .ok opened

theorem sound_nil (archives : List Archive) (d : Disk) : Sound [] archives d := by
  intro id opened hmem
  cases hmem

theorem mem_of_get? {cache : ContainerCache} {id : ArchiveId} {opened : OpenContainer}
    (h : cache.get? id = some opened) : (id, opened) ∈ cache :=
  Disk.mem_of_lookup h

/-- With a cache an archive is read as without it. -/
theorem source_eq {cache : ContainerCache} {archives : List Archive} {d s : Disk} {a : Archive}
    (hcache : cache.Sound archives d) (ha : a ∈ archives)
    (hids : ∀ b ∈ archives, b.id = a.id → b = a)
    (hsame : ∀ reader path, a.backing = .zip reader path → s.fileAt path = d.fileAt path)
    (handle : Nat) :
    (cache.source s a handle).1 = a.source s handle ∧
      (cache.source s a handle).2.Sound archives d := by
  unfold source
  split
  next reader path hbacking =>
    have hopen := Disk.openContainer_congr (hsame reader path hbacking) reader
    have hread : a.source s handle =
        (openContainer reader s path).bind fun opened => opened.source s a.id handle := by
      rw [Archive.source, hbacking]
      rfl
    split
    next opened hget =>
      obtain ⟨b, hb, hid, reader', path', hbacking', hopened⟩ :=
        hcache a.id opened (mem_of_get? hget)
      obtain rfl := hids b hb hid
      rw [hbacking] at hbacking'
      cases hbacking'
      rw [hread, hopen, hopened]
      exact ⟨rfl, hcache⟩
    next =>
      split
      next e hfailed =>
        rw [hread, hfailed]
        exact ⟨rfl, hcache⟩
      next opened hopened =>
        rw [hread, hopened]
        refine ⟨rfl, ?_⟩
        intro id other hmem
        rcases List.mem_cons.mp hmem with hmem | hmem
        · cases hmem
          exact ⟨a, ha, rfl, reader, path, hbacking, hopen ▸ hopened⟩
        · exact hcache id other hmem
  next => exact ⟨rfl, hcache⟩

end ContainerCache

/-- That the archives of an overlay can be told apart, and that an export has an empty directory to
go to, away from where they are read. -/
structure ExportGround (archives : List Archive) (d made : Disk) (destination : String)
    (place : Location) : Prop where
  vacant : made.Vacant destination place
  apart : ∀ a ∈ archives, a.Apart d made place
  ids : ∀ a ∈ archives, ∀ b ∈ archives, b.id = a.id → b = a
  contents : made.contents = d.contents
  rights : ∀ names, names ≠ [] →
    made.rights.add (place ++ names) = true ∧ made.rights.remove (place ++ names) = true

/-- What is put below the destination changes nothing in how archives are read. -/
theorem ExportGround.source_eq {archives : List Archive} {d made s : Disk} {destination : String}
    {place : Location} {cache : ContainerCache} {a : Archive}
    (hground : ExportGround archives d made destination place) (hcache : cache.Sound archives d)
    (ha : a ∈ archives) (hs : s.SameOutside made place) (handle : Nat) :
    (cache.source s a handle).1 = a.source d handle ∧
      (cache.source s a handle).2.Sound archives d := by
  have hfile : ∀ path ∈ a.backing.paths, s.fileAt path = d.fileAt path := fun path hpath =>
    (hground.apart a ha).fileAt_eq (fun names id hne => by simp [hground.vacant.empty names hne])
      hground.contents hs hpath
  obtain ⟨hread, hsound⟩ := ContainerCache.source_eq hcache ha (hground.ids a ha)
    (fun reader path hbacking => hfile path (by simp [hbacking, Backing.paths])) handle
  exact ⟨hread.trans (Archive.source_of_fileAt hfile handle), hsound⟩

namespace Disk

theorem Opened.node?_of_not_begins {d s : Disk} {place : Location} {names front : List String}
    (h : d.Opened s place names) (hfront : ¬ front <+: names) :
    s.node? (place ++ front) = d.node? (place ++ front) := by
  apply h.other
  intro other _ hbegins heq
  exact hfront (List.append_cancel_left heq ▸ hbegins)

theorem Opened.content?_eq {d s : Disk} {place : Location} {names : List String}
    (h : d.Opened s place names) (hfree : d.Free place names) (location : Location) :
    s.content? location = d.content? location := by
  by_cases hmade : ∃ front, front ≠ [] ∧ front <+: names ∧ location = place ++ front
  · obtain ⟨front, hne, hbegins, rfl⟩ := hmade
    rw [content?, content?, h.passable front hne hbegins]
    rcases hfree front hne hbegins with ⟨hnode, -⟩ | hnode
    · rw [hnode]
      rfl
    · rw [hnode]
      rfl
  · apply content?_congr
    · exact h.other location fun front hne hbegins heq => hmade ⟨front, hne, hbegins, heq⟩
    · intro id _
      cases id with
      | null => rfl
      | regular number => simp only [content, h.contents]

/-- What is below a place after some files have been tried there. Each was tried under its names,
and if it was written, it is there with its content. -/
structure Filled (s made : Disk) (place : Location)
    (tried : List (List String × Option ByteArray)) :
    Prop where
  outside : s.SameOutside made place
  file : ∀ names content, names ≠ [] →
    (s.content? (place ++ names) = some content ↔ (names, some content) ∈ tried)
  directory : ∀ names, names ≠ [] →
    (s.node? (place ++ names) = some .directory ↔ ∃ t ∈ tried, names <+: t.1 ∧ names ≠ t.1)
  link : ∀ names target, names ≠ [] → s.node? (place ++ names) ≠ some (.link target)

namespace Filled

variable {s t made : Disk} {destination : String} {place : Location}
  {tried : List (List String × Option ByteArray)} {names front : List String} {name : String}

theorem of_vacant (h : made.Vacant destination place) : made.Filled made place [] where
  outside := .refl made place
  file := fun names content hne => by simp [content?, h.empty names hne]
  directory := fun names hne => by simp [h.empty names hne]
  link := fun names target hne => by simp [h.empty names hne]

/-- What is below a place lies in directories. -/
theorem closed (h : s.Filled made place tried) (hne : names ≠ [])
    (hnode : s.node? (place ++ (names ++ [name])) ≠ none) :
    s.node? (place ++ names) = some .directory := by
  have hlonger : ∃ t ∈ tried, names ++ [name] <+: t.1 := by
    cases hfound : s.node? (place ++ (names ++ [name])) with
    | none => exact absurd hfound hnode
    | some node =>
        cases node with
        | file id =>
            exact ⟨_, (h.file _ _ (by simp)).mp (content?_of_node? hfound), List.prefix_refl _⟩
        | directory =>
            obtain ⟨t, ht, hbegins, -⟩ := (h.directory _ (by simp)).mp hfound
            exact ⟨t, ht, hbegins⟩
        | link target => exact absurd hfound (h.link _ target (by simp))
  obtain ⟨t, ht, hbegins⟩ := hlonger
  refine (h.directory names hne).mpr ⟨t, ht, (List.prefix_append _ _).trans hbegins, ?_⟩
  rintro rfl
  simpa using hbegins.length_le

theorem passable (h : s.Filled made place tried)
    (hnode : s.node? (place ++ (names ++ [name])) ≠ none) : s.Passable place names := by
  induction names using List.reverseRecOn generalizing name with
  | nil =>
      intro front hne hbegins
      exact absurd (List.prefix_nil.mp hbegins) hne
  | append_singleton names last ih =>
      have hdirectory := h.closed (by simp) hnode
      have hthere : s.node? (place ++ (names ++ [last])) ≠ none := by simp [hdirectory]
      exact (ih hthere).concat hdirectory

/-- A file that was tried in vain leaves directories behind. -/
theorem opened (h : s.Filled made place tried) (hopened : s.Opened t place front)
    (hfree : s.Free place front) (name : String) :
    t.Filled made place (tried ++ [(front ++ [name], none)]) where
  outside := by
    refine ⟨hopened.workingDirectory.trans h.outside.workingDirectory,
      hopened.rights.trans h.outside.rights, ?_, ?_⟩
    · intro location hlocation
      rw [hopened.other location fun other hne _ => hlocation other hne,
        h.outside.node location hlocation]
    · intro location hlocation
      rw [hopened.content?_eq hfree, h.outside.content location hlocation]
  file := by
    intro names content hne
    rw [hopened.content?_eq hfree, h.file names content hne]
    simp
  directory := by
    intro names hne
    have hlast : (names <+: front ++ [name] ∧ names ≠ front ++ [name]) ↔ names <+: front := by
      rw [List.prefix_concat_iff]
      constructor
      · rintro ⟨hsame | hbegins, hproper⟩
        · exact absurd hsame hproper
        · exact hbegins
      · intro hbegins
        refine ⟨.inr hbegins, ?_⟩
        rintro rfl
        simpa using hbegins.length_le
    by_cases hbegins : names <+: front
    · simp only [hopened.passable names hne hbegins, true_iff]
      exact ⟨_, List.mem_append_right _ (List.mem_singleton_self _), hlast.mpr hbegins⟩
    · rw [hopened.node?_of_not_begins hbegins, h.directory names hne]
      simp only [List.mem_append, List.mem_singleton, or_and_right, exists_or, exists_eq_left,
        hlast, hbegins, or_false]
  link := by
    intro names target hne
    by_cases hbegins : names <+: front
    · simp [hopened.passable names hne hbegins]
    · rw [hopened.node?_of_not_begins hbegins]
      exact h.link names target hne

/-- A file that was tried is written. -/
theorem written (h : s.Filled made place (tried ++ [(front ++ [name], none)]))
    (hnone : s.node? (place ++ (front ++ [name])) = none) {id : FileId} {content : ByteArray}
    (hworking : t.workingDirectory = s.workingDirectory) (hrights : t.rights = s.rights)
    (hnode : ∀ location, t.node? location =
      if location = place ++ (front ++ [name]) then some (.file id) else s.node? location)
    (hcontent : ∀ location, t.content? location =
      if location = place ++ (front ++ [name]) then some content else s.content? location) :
    t.Filled made place (tried ++ [(front ++ [name], some content)]) := by
  have hother : ∀ {names}, names ≠ front ++ [name] → place ++ names ≠ place ++ (front ++ [name]) :=
    fun hnames heq => hnames (List.append_cancel_left heq)
  refine ⟨⟨hworking.trans h.outside.workingDirectory, hrights.trans h.outside.rights, ?_, ?_⟩,
    ?_, ?_, ?_⟩
  · intro location hlocation
    rw [hnode, if_neg (hlocation _ (by simp)), h.outside.node location hlocation]
  · intro location hlocation
    rw [hcontent, if_neg (hlocation _ (by simp)), h.outside.content location hlocation]
  · intro names found hne
    by_cases hnames : names = front ++ [name]
    · subst hnames
      have hnew : (front ++ [name], some found) ∉ tried := by
        intro hmem
        have hfile := (h.file _ found hne).mpr (List.mem_append_left _ hmem)
        simp [content?, hnone] at hfile
      rw [hcontent, if_pos rfl]
      simp [hnew, eq_comm]
    · rw [hcontent, if_neg (hother hnames), h.file names found hne]
      simp [hnames]
  · intro names hne
    have hdirectory := h.directory names hne
    simp only [List.mem_append, List.mem_singleton, or_and_right, exists_or, exists_eq_left]
      at hdirectory ⊢
    by_cases hnames : names = front ++ [name]
    · subst hnames
      rw [hnone] at hdirectory
      rw [hnode, if_pos rfl]
      simpa using hdirectory
    · rw [hnode, if_neg (hother hnames)]
      exact hdirectory
  · intro names target hne
    rw [hnode]
    split
    · simp
    · exact h.link names target hne

theorem congr (h : s.Filled made place tried) (hworking : t.workingDirectory = s.workingDirectory)
    (hrights : t.rights = s.rights) (hnode : ∀ location, t.node? location = s.node? location)
    (hcontent : ∀ location, t.content? location = s.content? location) :
    t.Filled made place tried := by
  obtain ⟨⟨houtside, hallowed, hsame, hkept⟩, hfile, hdirectory, hlink⟩ := h
  exact ⟨⟨hworking.trans houtside, hrights.trans hallowed, by simpa only [hnode],
    by simpa only [hcontent]⟩, by simpa only [hcontent], by simpa only [hnode],
    by simpa only [hnode]⟩

/-- A file that has been opened is there without content. -/
theorem emptied (h : s.Filled made place (tried ++ [(front ++ [name], none)]))
    (hnone : s.node? (place ++ (front ++ [name])) = none) :
    (s.putFile (place ++ (front ++ [name]))).Filled made place
      (tried ++ [(front ++ [name], some .empty)]) := by
  have hplace : place ++ (front ++ [name]) ≠ [] := by simp
  exact h.written hnone (by simp [putFile, put]) (by simp [putFile, put]) (node?_putFile hplace)
    (content?_putFile hplace)

theorem stored (h : s.Filled made place (tried ++ [(front ++ [name], none)]))
    (hnone : s.node? (place ++ (front ++ [name])) = none) (content : ByteArray) :
    ((s.putFile (place ++ (front ++ [name]))).write (.regular s.freeNumber) content).Filled made
      place (tried ++ [(front ++ [name], some content)]) := by
  have hplace : place ++ (front ++ [name]) ≠ [] := by simp
  have hnode : ∀ location,
      ((s.putFile (place ++ (front ++ [name]))).write (.regular s.freeNumber) content).node?
          location =
        if location = place ++ (front ++ [name]) then some (.file (.regular s.freeNumber))
        else s.node? location := by
    intro location
    rw [node?_write, node?_putFile hplace]
  exact h.written hnone (by simp [putFile, put]) (by simp [putFile, put]) hnode
    (content?_newFile hplace content)

/-- A file that is taken away again leaves no trace. -/
theorem cleared (h : s.Filled made place (tried ++ [(front ++ [name], none)]))
    (hnone : s.node? (place ++ (front ++ [name])) = none) (content : ByteArray) :
    (((s.putFile (place ++ (front ++ [name]))).write (.regular s.freeNumber) content).erase
      (place ++ (front ++ [name]))).Filled made place (tried ++ [(front ++ [name], none)]) := by
  have hplace : place ++ (front ++ [name]) ≠ [] := by simp
  refine h.congr (by simp [erase, putFile, put]) (by simp [erase, putFile, put])
    (fun location => ?_) (fun location => ?_)
  · rw [node?_erase hplace, node?_write, node?_putFile hplace]
    split
    next heq => rw [heq, hnone]
    next => rfl
  · rw [content?_erase hplace, content?_newFile hplace]
    split
    next heq => rw [heq, content?, hnone, Option.bind_none]
    next => rfl

end Filled

end Disk

/-- An export whose sink is willing as long as its state is good, and whose reports keep it so. -/
structure ExportOptions.Unhindered {σ : Type} (options : ExportOptions σ) (good : σ → Prop) :
    Prop where
  sink : options.sink.WillingIn good
  report : ∀ report state, good state → good (options.report report state)

theorem ExportOptions.unhindered_plain (verify : Bool) : (plain verify).Unhindered fun _ => True :=
  ⟨Sink.willing_unlimited.willingIn, fun _ _ _ => trivial⟩

namespace ExportState

/-- An export on its way, after some files have been tried. -/
structure Tried {σ : Type} (s : ExportState σ) (archives : List Archive) (d made : Disk)
    (place : Location) (tried : List (List String × Option ByteArray)) : Prop where
  disk : s.disk.Filled made place tried
  caches : ∀ job, (s.caches job).Sound archives d

section

variable {σ : Type} {archives : List Archive} {d made : Disk} {destination : String}
  {place : Location} {tried : List (List String × Option ByteArray)} {s : ExportState σ}
  {options : ExportOptions σ} {good : σ → Prop} {names front : List String} {name : String}

theorem Tried.find (h : s.Tried archives d made place tried)
    (hground : ExportGround archives d made destination place) :
    s.disk.find destination = .ok (place, .directory) :=
  (h.disk.outside.extends hground.vacant).find hground.vacant.find

theorem writeFile_refused {path : String} {fault : IoFault}
    (h : Destination.prepare s.disk path = (s.disk, .error fault)) (options : ExportOptions σ)
    (job : Nat) (r : Resolved) : s.writeFile options job r path = (s, .error (.io fault)) := by
  rw [writeFile, h]

/-- Where a directory has to be, a file stands in the way. -/
theorem writeFile_blocked (h : s.Tried archives d made place tried)
    (hground : ExportGround archives d made destination place)
    (hfits : Disk.Fits destination names)
    {outer : List String} {content : ByteArray} (hmem : (outer, some content) ∈ tried)
    (hne : outer ≠ []) (hbegins : outer <+: names) (hproper : outer ≠ names)
    (options : ExportOptions σ) (job : Nat) (r : Resolved) :
    ∃ fault, s.writeFile options job r (names.foldl HostPath.join destination) =
      (s, .error (.io fault)) := by
  obtain ⟨rest, rfl⟩ := hbegins
  have hrest : rest ≠ [] := by
    rintro rfl
    simp at hproper
  obtain ⟨front, key, rfl⟩ := (List.eq_nil_or_concat' outer).resolve_left hne
  obtain ⟨middle, name, rfl⟩ := (List.eq_nil_or_concat' rest).resolve_left hrest
  obtain ⟨id, hnode, -⟩ := Disk.content?_eq_some_iff.mp ((h.disk.file _ content hne).mpr hmem)
  have hway := h.disk.passable (by simp [hnode] : s.disk.node? (place ++ (front ++ [key])) ≠ none)
  have hnames : front ++ [key] ++ middle = front ++ key :: middle := by simp
  rw [← List.append_assoc] at hfits ⊢
  obtain ⟨fault, hprepare⟩ := Disk.prepare_blocked (h.find hground) hfits hnames hway hnode
  exact ⟨fault, writeFile_refused hprepare options job r⟩

/-- Where a file has to be, a directory stands in the way. -/
theorem writeFile_occupied (h : s.Tried archives d made place tried)
    (hground : ExportGround archives d made destination place)
    (hfits : Disk.Fits destination names)
    {attempt : List String × Option ByteArray} (hmem : attempt ∈ tried) (hne : names ≠ [])
    (hbegins : names <+: attempt.1) (hproper : names ≠ attempt.1) (options : ExportOptions σ)
    (job : Nat) (r : Resolved) :
    ∃ fault, s.writeFile options job r (names.foldl HostPath.join destination) =
      (s, .error (.io fault)) := by
  obtain ⟨front, name, rfl⟩ := (List.eq_nil_or_concat' names).resolve_left hne
  have hnode := (h.disk.directory _ hne).mpr ⟨attempt, hmem, hbegins, hproper⟩
  have hway := h.disk.passable (by simp [hnode] : s.disk.node? (place ++ (front ++ [name])) ≠ none)
  have hprepare := Disk.prepare_occupied (h.find hground) hfits hway hnode
  exact ⟨_, writeFile_refused hprepare options job r⟩

/-- Where nothing is in the way, a file is written if it can be extracted. -/
theorem exists_writeFile (h : s.Tried archives d made place tried)
    (hground : ExportGround archives d made destination place)
    (hfits : Disk.Fits destination (front ++ [name])) {r : Resolved} (hr : r.archive ∈ archives)
    (hfree : s.disk.Free place front) (hnone : s.disk.node? (place ++ (front ++ [name])) = none)
    (hoptions : options.Unhindered good) (hgood : good s.state) (job : Nat) :
    ∃ s', s.writeFile options job r ((front ++ [name]).foldl HostPath.join destination) =
        (s', (r.extract d options.verify (.unlimited false) ()).1) ∧
      s'.results = s.results ∧ good s'.state ∧
      s'.Tried archives d made place
        (tried ++ [(front ++ [name], (r.extractBytes d options.verify false).toOption)]) := by
  have hrights := hground.rights (front ++ [name]) (by simp)
  rw [← h.disk.outside.rights] at hrights
  obtain ⟨made', hopened, hprepare⟩ :=
    Disk.exists_prepare (h.find hground) hfits hfree hnone hrights.1
  have hfilled := h.disk.opened hopened hfree name
  have hnone' : made'.node? (place ++ (front ++ [name])) = none := by rw [hopened.last, hnone]
  obtain ⟨hsource, hsound⟩ := hground.source_eq (h.caches job) hr (hfilled.emptied hnone').outside
    r.entry.handle
  obtain ⟨hresult, haccepted, hstate, -⟩ := r.deliver_of_willing hoptions.sink
    Sink.willing_unlimited.willingIn options.verify (r.archive.source d r.entry.handle) hgood
    trivial
  rw [writeFile, hprepare]
  dsimp only
  rw [hsource]
  have hcaches : ∀ other, (if other = job then
      ((s.caches job).source (made'.putFile (place ++ (front ++ [name])))
        r.archive r.entry.handle).2
      else s.caches other).Sound archives d := by
    intro other
    split
    · exact hsound
    · exact h.caches other
  rw [Resolved.extractBytes, Resolved.extract]
  generalize r.deliver options.verify (r.archive.source d r.entry.handle) options.sink s.state =
    delivered at hresult haccepted hstate ⊢
  generalize r.deliver options.verify (r.archive.source d r.entry.handle) (.unlimited false) () =
    alone at hresult haccepted ⊢
  rcases delivered with ⟨result, o⟩
  rcases alone with ⟨result', o'⟩
  obtain rfl : result = result' := hresult
  replace haccepted : o.accepted = o'.accepted := haccepted
  have hfull := hfilled.stored hnone' o'.accepted
  refine ⟨_, rfl, rfl, hstate, ?_, hcaches⟩
  dsimp only
  rw [haccepted]
  cases result with
  | ok n => exact hfull
  | error e =>
      have hfile : ((made'.putFile (place ++ (front ++ [name]))).write (.regular made'.freeNumber)
          o'.accepted).node? (place ++ (front ++ [name])) =
            some (.file (.regular made'.freeNumber)) := by
        rw [Disk.node?_write, Disk.node?_putFile (by simp), if_pos rfl]
      have hremove := Disk.removeFile_below
        ((hfull.outside.extends hground.vacant).find hground.vacant.find) hfits
        (hfull.passable (Option.isSome_iff_ne_none.mp (by rw [hfile]; rfl))) hfile
        (by rw [hfull.outside.rights]; exact (hground.rights _ (by simp)).2)
      rw [Destination.finish]
      dsimp only
      rw [hremove]
      exact hfilled.cleared hnone' o'.accepted

end

end ExportState

end ArchiveOverlay
