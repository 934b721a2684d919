import ArchiveOverlay.Proofs.Disk.Tree
import ArchiveOverlay.Proofs.Extract.Damage
import ArchiveOverlay.Proofs.Overlay.Exchange

namespace ArchiveOverlay

/-- That a name can be that of a file in every kind of container. It leads down from a directory,
it does not look like the name of a directory, and it means a path. -/
structure Portable (name : String) : Prop where
  pieces : ∀ piece ∈ Disk.pathPieces name, piece ≠ "" ∧ piece ≠ "." ∧ piece ≠ ".."
  last : name.toList.getLast? ≠ some '\\'
  path : ∃ display, DisplayPath.parse name = .ok display ∧ display.segments ≠ []

structure PortableFiles (files : List (String × ByteArray)) : Prop where
  distinct : (files.map Prod.fst).Nodup
  portable : ∀ file ∈ files, Portable file.1
  fits : ∀ file ∈ files, file.2.size < UInt64.size

/-- That two of the files have names that mean the same path. -/
def Clash (files : List (String × ByteArray)) : Prop :=
  ∃ file ∈ files, ∃ other ∈ files, file.1 ≠ other.1 ∧ Path.parse file.1 = Path.parse other.1

/-- That the files below a directory are these; special files do not count. Everything there has a
name, and a path that can be opened. -/
structure Disk.HoldsFiles (d : Disk) (root : String) (place : Location)
    (files : List (String × ByteArray)) : Prop where
  found : d.find root = .ok (place, .directory)
  proper : d.Proper
  places : (d.nodes.map Prod.fst).Nodup
  files : ∀ names content,
    (∃ number, d.node? (place ++ names) = some (.file (.regular number)) ∧
      d.content (.regular number) = content) ↔
    ∃ name, (name, content) ∈ files ∧ pathPieces name = names
  named : ∀ names, d.node? (place ++ names) ≠ none →
    ∀ name ∈ names, Nameable name ∧ '/' ∉ name.toList
  opens : ∀ names, names ≠ [] → d.node? (place ++ names) ≠ none →
    Admissible (HostPath.join root ("/".intercalate names))

/-- That the members of a container, in any order, are these files and others that stand for no
file: directories, and names that are no path. All members can be read, and directories are told by
the slash, of either kind, that their names end with. -/
structure PacksFiles (data : ByteArray) (members kept skipped : List ContainerMember)
    (files : List (String × ByteArray)) : Prop where
  directories : ∀ member ∈ members, member.isDirectory = true →
    member.name.toList.getLast? = some '/' ∨ member.name.toList.getLast? = some '\\'
  members : members.Perm (kept ++ skipped)
  kept : List.Forall₂ (fun member file => member.name = file.1 ∧
    ∃ source, member.source? data = some source ∧ source.finalFault = none ∧
      source.content = file.2) kept files
  skipped : ∀ member ∈ skipped, (∃ source, member.source? data = some source) ∧
    (member.isDirectory = true ∨
      ∀ display, DisplayPath.parse member.name = .ok display → display.segments = [])

namespace ArchiveOrigin

def id : ArchiveOrigin → ArchiveId
  | directory root => archiveIdOf root
  | zip _ path => archiveIdOf path
  | memory id _ => id

/-- That these files, and no others, are what an archive is loaded from. -/
def Carries (d : Disk) (files : List (String × ByteArray)) : ArchiveOrigin → Prop
  | directory root => ∃ place, d.HoldsFiles root place files
  | zip reader path => ∃ data members kept skipped, d.seen path = .ok (some data) ∧
      reader data = some members ∧ PacksFiles data members kept skipped files
  | memory _ listed => listed.Perm files

end ArchiveOrigin

/-- What is known of a file before its name is read as a path. -/
def RawEntry.facts (raw : RawEntry) : String × UInt64 × UInt64 :=
  (raw.name, raw.byteSize, raw.checksum)

def fileFacts (file : String × ByteArray) : String × UInt64 × UInt64 :=
  (file.1, file.2.size.toUInt64, Digest.xxh3 file.2)

theorem ArchiveOrigin.facts_numbered (files : List (String × ByteArray)) :
    (numbered files).map RawEntry.facts = files.map fileFacts := by
  calc (numbered files).map RawEntry.facts
      = files.zipIdx.map (fileFacts ∘ Prod.fst) := List.map_map
    _ = (files.zipIdx.map Prod.fst).map fileFacts := List.map_map.symm
    _ = files.map fileFacts := by rw [List.zipIdx_map_fst]

/-- The file, if what was found below a directory is one. -/
def Disk.fileFound? (d : Disk) : String × Node → Option (String × ByteArray)
  | (path, .file (.regular number)) => some (path, d.content (.regular number))
  | _ => none

theorem Disk.fileFound?_eq_some {d : Disk} {found : String × Node} {file : String × ByteArray} :
    d.fileFound? found = some file ↔ ∃ number, found = (file.1, .file (.regular number)) ∧
      d.content (.regular number) = file.2 := by
  rcases found with ⟨name, node⟩
  rcases node with ⟨number | _⟩ | _ | _
  all_goals simp [fileFound?, Prod.ext_iff]

namespace Disk.HoldsFiles

variable {d : Disk} {root : String} {place : Location} {files : List (String × ByteArray)}

theorem pathPieces_of_mem (h : d.HoldsFiles root place files) {names : Location} {node : Node}
    (hmem : (names, node) ∈ d.below place) :
    d.node? (place ++ names) = some node ∧ pathPieces ("/".intercalate names) = names := by
  obtain ⟨hne, hnode⟩ := mem_below.mp hmem
  rw [← node?_eq_some_iff h.places (by simp [hne])] at hnode
  refine ⟨hnode, pathPieces_intercalate hne ?_⟩
  intro name hname
  exact (h.named names (by simp [hnode]) name hname).2

theorem node?_of_mem_tree (h : d.HoldsFiles root place files) {name : String} {node : Node}
    (hmem : (name, node) ∈ d.tree place) : d.node? (place ++ pathPieces name) = some node := by
  obtain ⟨names, hne, hnode, rfl⟩ := mem_tree.mp hmem
  obtain ⟨hfound, hpieces⟩ := h.pathPieces_of_mem (mem_below.mpr ⟨hne, hnode⟩)
  rwa [hpieces]

theorem openFound?_eq (h : d.HoldsFiles root place files) {found : String × Node}
    (hmem : found ∈ d.tree place) : openFound? d root found = .ok (d.fileFound? found) := by
  rcases found with ⟨name, node⟩
  have hnode := h.node?_of_mem_tree hmem
  have hsome : d.node? (place ++ pathPieces name) ≠ none := by simp [hnode]
  have hpath := h.opens _ (by simp [pathPieces, HostPath.pieces_ne_nil]) hsome
  rw [intercalate_pathPieces] at hpath
  have hnames : ∀ piece ∈ pathPieces name, Nameable piece := fun piece hpiece =>
    (h.named _ hsome piece hpiece).1
  rcases node with ⟨number | _⟩ | _ | target
  · have hfind := find_join h.proper h.found hnames hpath hnode (by simp)
    simp [openFound?, Node.isEntered, hfind, nodeContent?, fileFound?]
  · simp [openFound?, Node.isEntered, fileFound?]
  · have hfind := find_join h.proper h.found hnames hpath hnode (by simp)
    simp [openFound?, Node.isEntered, hfind, nodeContent?, fileFound?]
  · simp [openFound?, Node.isEntered, fileFound?]

theorem tree_pairwise (h : d.HoldsFiles root place files) :
    (d.tree place).Pairwise fun found other => found.1 ≠ other.1 := by
  have hbelow : (d.below place).Pairwise fun found other => found.1 ≠ other.1 := by
    apply (List.pairwise_map.mp h.places).filterMap
    rintro ⟨first, node⟩ ⟨second, node'⟩ hne found hfirst found' hsecond
    simp only [Option.ite_none_right_eq_some, Bool.and_eq_true, List.isPrefixOf_iff_prefix,
      Option.some.injEq] at hfirst hsecond
    obtain ⟨⟨⟨rest, rfl⟩, -⟩, rfl⟩ := hfirst
    obtain ⟨⟨⟨rest', rfl⟩, -⟩, rfl⟩ := hsecond
    intro hrest
    simp only [List.drop_left] at hrest
    exact hne (by rw [hrest])
  rw [tree, (List.mergeSort_perm _ _).pairwise_iff Ne.symm, List.pairwise_map]
  -- Names without slashes can be read off the path that they make.
  refine hbelow.imp_of_mem ?_
  rintro ⟨names, node⟩ ⟨names', node'⟩ hmem hmem' hne hpath
  have hpieces := congrArg pathPieces hpath
  rw [(h.pathPieces_of_mem hmem).2, (h.pathPieces_of_mem hmem').2] at hpieces
  exact hne hpieces

theorem mem_tree_file (h : d.HoldsFiles root place files) {name : String} {content : ByteArray} :
    (∃ number, (name, .file (.regular number)) ∈ d.tree place ∧
      d.content (.regular number) = content) ↔ (name, content) ∈ files := by
  constructor
  · rintro ⟨number, hmem, hcontent⟩
    obtain ⟨name', hfile, hpieces⟩ :=
      (h.files _ content).mp ⟨number, h.node?_of_mem_tree hmem, hcontent⟩
    have hname := congrArg ("/".intercalate) hpieces
    rw [intercalate_pathPieces, intercalate_pathPieces] at hname
    rwa [← hname]
  · intro hfile
    have hne : pathPieces name ≠ [] := by simp [pathPieces, HostPath.pieces_ne_nil]
    obtain ⟨number, hnode, hcontent⟩ := (h.files (pathPieces name) content).mpr ⟨name, hfile, rfl⟩
    rw [node?_eq_some_iff h.places (by simp [hne])] at hnode
    exact ⟨number, mem_tree.mpr ⟨pathPieces name, hne, hnode, intercalate_pathPieces name⟩,
      hcontent⟩

/-- What is enumerated of a directory, in the order of the paths. -/
theorem exists_directoryFiles (h : d.HoldsFiles root place files)
    (hnodup : files.Nodup) : ∃ listed, directoryFiles d root = .ok listed ∧ listed.Perm files := by
  refine ⟨(d.tree place).filterMap d.fileFound?, ?_, ?_⟩
  · rw [directoryFiles_of_find h.found, filesBelow,
      mapM_eq_ok_map fun _ hmem => h.openFound?_eq hmem]
    exact congrArg Except.ok List.filterMap_map
  · have hlisted : ((d.tree place).filterMap d.fileFound?).Nodup := by
      apply h.tree_pairwise.filterMap
      rintro found found' hne file hfound _ hfound' rfl
      obtain ⟨_, rfl, -⟩ := fileFound?_eq_some.mp hfound
      obtain ⟨_, rfl, -⟩ := fileFound?_eq_some.mp hfound'
      exact hne rfl
    rw [List.perm_ext_iff_of_nodup hlisted hnodup]
    rintro ⟨name, content⟩
    rw [List.mem_filterMap, ← h.mem_tree_file]
    constructor
    · rintro ⟨found, hmem, hfound⟩
      obtain ⟨number, rfl, hcontent⟩ := fileFound?_eq_some.mp hfound
      exact ⟨number, hmem, hcontent⟩
    · rintro ⟨number, hmem, hcontent⟩
      exact ⟨_, hmem, fileFound?_eq_some.mpr ⟨number, rfl, hcontent⟩⟩

end Disk.HoldsFiles

theorem Portable.getLast?_ne {name : String} (h : Portable name) :
    name.toList.getLast? ≠ some '/' := by
  intro hlast
  obtain ⟨front, hfront⟩ := List.getLast?_eq_some_iff.mp hlast
  have hname : name = String.ofList front ++ "/" ++ "" := by
    rw [← String.toList_inj, hfront]
    simp
  have hempty : "" ∈ Disk.pathPieces name := by
    rw [hname, HostPath.pathPieces_append]
    exact List.mem_append_right _ (List.mem_singleton.mpr rfl)
  exact (h.pieces "" hempty).1 rfl

theorem ContainerMember.facts_raw? (data : ByteArray) (members : List ContainerMember) :
    (members.zipIdx.filterMap (raw? data)).map RawEntry.facts =
      (members.filterMap (file? data)).map fileFacts := by
  have hraw : ∀ numbered, (raw? data numbered).map RawEntry.facts =
      (file? data numbered.1).map fileFacts := by
    rintro ⟨member, handle⟩
    rw [raw?, Option.map_map]
    rfl
  calc (members.zipIdx.filterMap (raw? data)).map RawEntry.facts
      = members.zipIdx.filterMap
        ((fun member => (file? data member).map fileFacts) ∘ Prod.fst) := by
        rw [List.map_filterMap]
        exact congrArg (List.filterMap · members.zipIdx) (funext hraw)
    _ = (members.filterMap (file? data)).map fileFacts := by
        rw [← List.filterMap_map, List.zipIdx_map_fst, List.map_filterMap]

namespace PacksFiles

variable {data : ByteArray} {members kept skipped : List ContainerMember}
  {files : List (String × ByteArray)}

theorem isDirectory_eq_false (h : PacksFiles data members kept skipped files)
    {member : ContainerMember} (hmember : member ∈ kept) (hname : Portable member.name) :
    member.isDirectory = false := by
  have hmem := h.members.mem_iff.mpr (List.mem_append_left skipped hmember)
  rw [← Bool.not_eq_true]
  intro hdirectory
  rcases h.directories member hmem hdirectory with hslash | hbackslash
  · exact hname.getLast?_ne hslash
  · exact hname.last hbackslash

theorem file?_of_kept (h : PacksFiles data members kept skipped files)
    (hfiles : PortableFiles files) :
    List.Forall₂ (fun member file => member.file? data = some file ∧
      ∃ source, member.source? data = some source ∧ source.finalFault = none) kept files := by
  have hportable := ((List.forall₂_and_left _ _).mpr ⟨hfiles.portable, h.kept.flip⟩).flip
  have hmembers : ∀ member ∈ kept, member ∈ kept := fun _ hmember => hmember
  apply ((List.forall₂_and_left _ _).mpr ⟨hmembers, hportable⟩).imp
  rintro member ⟨name, content⟩ ⟨hmember, hportable, rfl, source, hread, hfault, rfl⟩
  obtain ⟨display, hparse, hsegments⟩ := hportable.path
  exact ⟨ContainerMember.file?_of_source (h.isDirectory_eq_false hmember hportable) hparse
    hsegments hread, source, hread, hfault⟩

theorem file?_of_skipped (h : PacksFiles data members kept skipped files)
    {member : ContainerMember} (hmember : member ∈ skipped) : member.file? data = none := by
  obtain ⟨-, hdirectory | hroot⟩ := h.skipped member hmember
  · rw [ContainerMember.file?, if_pos hdirectory]
  · rw [ContainerMember.file?]
    split
    next => rfl
    next =>
      cases hparse : DisplayPath.parse member.name with
      | error fault => rfl
      | ok display => simp [hroot display hparse]

theorem perm_files (h : PacksFiles data members kept skipped files)
    (hfiles : PortableFiles files) :
    (members.filterMap (ContainerMember.file? data)).Perm files := by
  have hkept : kept.filterMap (ContainerMember.file? data) = files := by
    have hmap : kept.map (ContainerMember.file? data) = files.map some :=
      map_eq_map_of_forall₂ ((h.file?_of_kept hfiles).imp fun _ _ hmember => hmember.1)
    have hall : (kept.map (ContainerMember.file? data)).filterMap (fun file => file) =
        kept.filterMap (ContainerMember.file? data) := List.filterMap_map
    rw [← hall, hmap]
    simp
  have hskipped : skipped.filterMap (ContainerMember.file? data) = [] :=
    List.filterMap_eq_nil_iff.mpr fun _ hmember => h.file?_of_skipped hmember
  have hperm := h.members.filterMap (ContainerMember.file? data)
  rwa [List.filterMap_append, hkept, hskipped, List.append_nil] at hperm

/-- All members can be opened, and those that are files read to their end. -/
theorem exists_source (h : PacksFiles data members kept skipped files)
    (hfiles : PortableFiles files) {member : ContainerMember} (hmember : member ∈ members) :
    ∃ source, member.source? data = some source ∧
      (member.file? data ≠ none → source.finalFault = none) := by
  rcases List.mem_append.mp (h.members.mem_iff.mp hmember) with hkept | hskipped
  · obtain ⟨-, -, -, source, hread, hfault⟩ :=
      exists_of_mem_right (h.file?_of_kept hfiles).flip hkept
    exact ⟨source, hread, fun _ => hfault⟩
  · obtain ⟨⟨source, hread⟩, -⟩ := h.skipped member hskipped
    exact ⟨source, hread, fun hfile => absurd (h.file?_of_skipped hskipped) hfile⟩

end PacksFiles

namespace Archive

/-- That an archive lists these files, under the paths that their names mean. -/
def Lists (a : Archive) (files : List (String × ByteArray)) : Prop :=
  (a.entries.map fun e => (Except.ok e.display, e.size, e.checksum)).Perm
    (files.map fun (name, content) => (DisplayPath.parse name, content.size, Digest.xxh3 content))

theorem Lists.sameFiles {a b : Archive} {files : List (String × ByteArray)} (h : a.Lists files)
    (h' : b.Lists files) : a.SameFiles b := by
  let read : DisplayPath × UInt64 × UInt64 → Except PathFault DisplayPath × Nat × UInt64 :=
    fun facts => (.ok facts.1, facts.2.1.toNat, facts.2.2)
  have hread : read.Injective := by
    rintro ⟨display, size, checksum⟩ ⟨display', size', checksum'⟩ heq
    obtain ⟨hdisplay, hrest⟩ := Prod.mk.inj heq
    obtain ⟨hsize, hchecksum⟩ := Prod.mk.inj hrest
    exact Prod.ext (Except.ok.inj hdisplay) (Prod.ext (UInt64.toNat_inj.mp hsize) hchecksum)
  have hperm : ((a.entries.map Entry.facts).map read).Perm
      ((b.entries.map Entry.facts).map read) := by
    rw [List.map_map, List.map_map]
    exact h.trans h'.symm
  exact (List.map_perm_map_iff hread).mp hperm

theorem addEntry_error {id : ArchiveId} {entries : List Entry} {raw : RawEntry} {fault : Error}
    (h : addEntry id entries raw = .error fault)
    (hname : ∃ display, DisplayPath.parse raw.name = .ok display ∧ display.segments ≠ []) :
    ∃ text, fault = .duplicateEntry id text := by
  obtain ⟨display, hparse, hsegments⟩ := hname
  simp only [addEntry, hparse, List.isEmpty_iff, hsegments, if_false] at h
  split at h
  next =>
    cases h
    exact ⟨display.text, rfl⟩
  next => cases h

/-- Names of files can fail to make an archive only by meaning the same path. -/
theorem build_error {id : ArchiveId} {backing : Backing} {raws : List RawEntry} {fault : Error}
    (h : build id backing raws = .error fault)
    (hnames : ∀ raw ∈ raws, ∃ display, DisplayPath.parse raw.name = .ok display ∧
      display.segments ≠ []) : ∃ text, fault = .duplicateEntry id text := by
  have hindex : indexEntries id raws = .error fault := by
    unfold build at h
    split at h
    next heq =>
      cases h
      exact heq
    next => cases h
  clear h
  induction raws using List.reverseRecOn with
  | nil => cases hindex
  | append_singleton raws last ih =>
      rw [indexEntries_concat] at hindex
      cases hbefore : indexEntries id raws with
      | error first =>
          rw [hbefore] at hindex
          cases hindex
          exact ih (fun raw hraw => hnames raw (by simp [hraw])) hbefore
      | ok before =>
          rw [hbefore] at hindex
          exact addEntry_error hindex (hnames last (by simp))

section

variable {raws : List RawEntry} {entries : List Entry} {files : List (String × ByteArray)}

theorem paths_nodup_iff (hfiles : PortableFiles files)
    (hfacts : (raws.map RawEntry.facts).Perm (files.map fileFacts))
    (hindexed : List.Forall₂ RawEntry.Indexed raws entries) :
    (entries.map Entry.path).Nodup ↔ ¬ Clash files := by
  have hpaths : (entries.map Entry.path).map Except.ok =
      (raws.map RawEntry.facts).map fun facts => Path.parse facts.1 := by
    rw [List.map_map, List.map_map, eq_comm]
    apply map_eq_map_of_forall₂ (hindexed.imp _)
    intro raw e hraw
    show Path.parse raw.name = .ok e.path
    rw [Path.parse, hraw.parse, e.path_eq]
    rfl
  have hnames : (files.map fileFacts).map (fun facts => Path.parse facts.1) =
      (files.map Prod.fst).map Path.parse := by
    rw [List.map_map, List.map_map]
    rfl
  have hok : Function.Injective (Except.ok : Path → Except PathFault Path) :=
    fun _ _ heq => Except.ok.inj heq
  rw [← List.nodup_map_iff hok, hpaths, (hfacts.map _).nodup_iff, hnames,
    List.nodup_map_iff_inj_on hfiles.distinct]
  constructor
  · rintro hinj ⟨file, hfile, other, hother, hne, hsame⟩
    exact hne (hinj _ (List.mem_map_of_mem hfile) _ (List.mem_map_of_mem hother) hsame)
  · intro hclash name hname name' hname' hsame
    obtain ⟨file, hfile, rfl⟩ := List.mem_map.mp hname
    obtain ⟨other, hother, rfl⟩ := List.mem_map.mp hname'
    by_contra hne
    exact hclash ⟨file, hfile, other, hother, hne, hsame⟩

theorem lists_of_build {id : ArchiveId} {backing : Backing} {a : Archive}
    (h : build id backing raws = .ok a) (hfiles : PortableFiles files)
    (hfacts : (raws.map RawEntry.facts).Perm (files.map fileFacts)) : a.Lists files := by
  obtain ⟨-, -, hindexed⟩ := build_ok h
  let read : String × UInt64 × UInt64 → Except PathFault DisplayPath × Nat × UInt64 :=
    fun facts => (DisplayPath.parse facts.1, facts.2.1.toNat, facts.2.2)
  have hentries : (a.entries.map fun e => (Except.ok e.display, e.size, e.checksum)) =
      (raws.map RawEntry.facts).map read := by
    rw [List.map_map, eq_comm]
    apply map_eq_map_of_forall₂ (hindexed.imp _)
    intro raw e hraw
    show (DisplayPath.parse raw.name, raw.byteSize.toNat, raw.checksum) =
      (.ok e.display, e.size, e.checksum)
    rw [hraw.parse, ← hraw.byteSize, hraw.checksum]
    rfl
  have hread : (files.map fileFacts).map read =
      files.map fun (name, content) =>
          (DisplayPath.parse name, content.size, Digest.xxh3 content) := by
    rw [List.map_map, List.map_inj_left]
    rintro ⟨name, content⟩ hfile
    have hsize : content.size.toUInt64.toNat = content.size :=
      UInt64.toNat_ofNat_of_lt (hfiles.fits _ hfile)
    show (_, content.size.toUInt64.toNat, _) = _
    rw [hsize]
    rfl
  rw [Lists, hentries, ← hread]
  exact hfacts.map read

/-- Portable files make an archive, unless two of their names mean the same path. -/
theorem build_portable (hfiles : PortableFiles files)
    (hfacts : (raws.map RawEntry.facts).Perm (files.map fileFacts)) (id : ArchiveId)
    (backing : Backing) :
    (Clash files ∧ ∃ text, build id backing raws = .error (.duplicateEntry id text)) ∨
      ¬ Clash files ∧ ∃ a, build id backing raws = .ok a ∧ a.Lists files := by
  have hnames : ∀ raw ∈ raws, ∃ display, DisplayPath.parse raw.name = .ok display ∧
      display.segments ≠ [] := by
    intro raw hraw
    have hmem := hfacts.mem_iff.mp (List.mem_map_of_mem hraw)
    obtain ⟨file, hfile, hsame⟩ := List.mem_map.mp hmem
    rw [← show file.1 = raw.name from (Prod.mk.inj hsame).1]
    exact (hfiles.portable file hfile).path
  cases hbuild : build id backing raws with
  | error fault =>
      obtain ⟨text, rfl⟩ := build_error hbuild hnames
      refine .inl ⟨?_, text, rfl⟩
      obtain ⟨entries, hentries⟩ :
          ∃ entries, List.Forall₂ (fun raw e => e.display.segments ≠ [] ∧ RawEntry.Indexed raw e)
            raws entries := by
        apply exists_forall₂
        intro raw hraw
        obtain ⟨display, hparse, hsegments⟩ := hnames raw hraw
        exact ⟨⟨display, .ofDisplay display, raw.byteSize, raw.checksum, raw.handle, rfl⟩,
          hsegments, hparse, rfl, rfl, rfl⟩
      have hindexed := hentries.imp fun _ _ hraw => hraw.2
      by_contra hclash
      have hsegments : ∀ e ∈ entries, e.display.segments ≠ [] := by
        intro e he
        obtain ⟨-, -, hne, -⟩ := exists_of_mem_right hentries he
        exact hne
      obtain ⟨a, ha, -⟩ := exists_build_iff.mpr
        ⟨hindexed, hsegments, (paths_nodup_iff hfiles hfacts hindexed).mpr hclash⟩
      rw [hbuild] at ha
      cases ha
  | ok a =>
      obtain ⟨-, -, hindexed⟩ := build_ok hbuild
      exact .inr ⟨(paths_nodup_iff hfiles hfacts hindexed).mp a.paths_nodup, a, rfl,
        lists_of_build hbuild hfiles hfacts⟩

end

end Archive

namespace ArchiveOrigin

variable {d d' : Disk} {files : List (String × ByteArray)} {origin origin' : ArchiveOrigin}

theorem exists_build_zip {reader : ContainerReader} {path : String}
    (h : (zip reader path).Carries d files) (hfiles : PortableFiles files) :
    ∃ backing raws, (zip reader path).load d = Archive.build (archiveIdOf path) backing raws ∧
      (raws.map RawEntry.facts).Perm (files.map fileFacts) := by
  obtain ⟨data, members, kept, skipped, hseen, hmembers, hpacks⟩ := h
  obtain ⟨place, file, hfind, rfl⟩ := Disk.exists_find_of_seen hseen
  refine ⟨_, _, loadContainer_eq hfind hmembers fun _ hmember =>
    hpacks.exists_source hfiles hmember, ?_⟩
  rw [ContainerMember.facts_raw?]
  exact (hpacks.perm_files hfiles).map fileFacts

/-- Whatever carries the files, an archive is built from what is known of each. -/
theorem Carries.exists_build (h : origin.Carries d files) (hfiles : PortableFiles files) :
    ∃ backing raws, origin.load d = Archive.build origin.id backing raws ∧
      (raws.map RawEntry.facts).Perm (files.map fileFacts) := by
  cases origin with
  | directory root =>
      obtain ⟨place, hholds⟩ := h
      obtain ⟨listed, hlisted, hperm⟩ := hholds.exists_directoryFiles (.of_map _ hfiles.distinct)
      refine ⟨.directory root (listed.map Prod.fst), numbered listed, ?_, ?_⟩
      · rw [load, loadDirectory, hlisted]
        rfl
      · rw [facts_numbered]
        exact hperm.map fileFacts
  | zip reader path => exact exists_build_zip h hfiles
  | memory id listed =>
      refine ⟨.memory (listed.map Prod.snd), numbered listed, ?_, ?_⟩
      · rw [load, Archive.ofMemory, List.map_map, List.zipIdx_map, List.map_map]
        rfl
      · rw [facts_numbered]
        exact h.map fileFacts

theorem Carries.mem_of_has (h : origin.Carries d files) (hfiles : PortableFiles files)
    {name : String} {content : ByteArray} (hhas : origin.Has d name content)
    (hname : ∃ display, DisplayPath.parse name = .ok display ∧ display.segments ≠ []) :
    (name, content) ∈ files := by
  cases origin with
  | directory root =>
      obtain ⟨place, hholds⟩ := h
      obtain ⟨listed, hlisted, hperm⟩ := hholds.exists_directoryFiles (.of_map _ hfiles.distinct)
      rw [← hperm.mem_iff]
      rcases mem_directoryFiles hlisted with ⟨alone, rfl⟩ | hmem
      · -- The path of the root itself is no name of a file.
        have hroot := hfiles.portable _ (hperm.mem_iff.mp (List.mem_singleton_self _))
        exact absurd rfl (hroot.pieces "" (List.mem_singleton.mpr rfl)).1
      · exact (hmem name content).mp hhas
  | zip reader path =>
      obtain ⟨data, members, kept, skipped, hseen, hmembers, hpacks⟩ := h
      obtain ⟨data', members', member, source, hseen', hmembers', hmember, hnodirectory, rfl,
        hread, rfl⟩ := hhas
      obtain rfl : data = data' := by simpa [hseen] using hseen'
      obtain rfl : members = members' := by simpa [hmembers] using hmembers'
      obtain ⟨display, hdisplay, hsegments⟩ := hname
      rw [← (hpacks.perm_files hfiles).mem_iff]
      exact List.mem_filterMap.mpr ⟨member, hmember,
        ContainerMember.file?_of_source hnodirectory hdisplay hsegments hread⟩
  | memory id listed => exact h.mem_iff.mp hhas

theorem Carries.load_cases (h : origin.Carries d files) (hfiles : PortableFiles files) :
    (Clash files ∧ ∃ text, origin.load d = .error (.duplicateEntry origin.id text)) ∨
      ¬ Clash files ∧ ∃ a, origin.load d = .ok a ∧ a.id = origin.id ∧ a.Lists files := by
  obtain ⟨backing, raws, hload, hfacts⟩ := h.exists_build hfiles
  rw [hload]
  apply (Archive.build_portable hfiles hfacts origin.id backing).imp_right
  rintro ⟨hclash, a, ha, hlists⟩
  exact ⟨hclash, a, ha, (Archive.build_ok ha).1, hlists⟩

theorem Carries.refused_iff (h : origin.Carries d files) (hfiles : PortableFiles files) :
    (∃ text, origin.load d = .error (.duplicateEntry origin.id text)) ↔ Clash files := by
  rcases h.load_cases hfiles with ⟨hclash, hrefused⟩ | ⟨hclash, a, ha, -⟩
  · exact iff_of_true hrefused hclash
  · exact iff_of_false (by simp [ha]) hclash

/-- What is read for a file does not depend on what carries it. -/
theorem Carries.alike (h : origin.Carries d files) (h' : origin'.Carries d' files)
    (hfiles : PortableFiles files) (hclash : ¬ Clash files) {a a' : Archive}
    (hload : origin.load d = .ok a) (hload' : origin'.load d' = .ok a') (hsame : a.SameFiles a')
    (hid : a.id = a'.id) {s s' : Disk} (hdisk : a.Unchanged d s) (hdisk' : a'.Unchanged d' s') :
    Archive.Alike s s' a a' := by
  refine ⟨hid, hsame, ?_⟩
  intro e he f hf hfacts
  have hpath := Entry.path_eq_of_facts hfacts
  obtain ⟨raws, henumerates⟩ := origin.exists_enumerates hload
  obtain ⟨raws', henumerates'⟩ := origin'.exists_enumerates hload'
  obtain ⟨content, hrecovers⟩ := henumerates.exists_recovers he
  obtain ⟨content', hrecovers'⟩ := henumerates'.exists_recovers hf
  obtain ⟨name, hhas, hname⟩ := hrecovers.has
  obtain ⟨name', hhas', hname'⟩ := hrecovers'.has
  have hmem := h.mem_of_has hfiles hhas (exists_display_of_entry he hname)
  have hmem' := h'.mem_of_has hfiles hhas' (exists_display_of_entry hf hname')
  obtain rfl : name = name' := by
    by_contra hne
    exact hclash ⟨_, hmem, _, hmem', hne, by rw [hname, hname', hpath]⟩
  obtain rfl : content = content' :=
    congrArg Prod.snd (List.inj_on_of_nodup_map hfiles.distinct hmem hmem' rfl)
  obtain ⟨source, hsource, hfault, rfl⟩ := hrecovers.source
  obtain ⟨source', hsource', hfault', hcontent⟩ := hrecovers'.source
  rw [Archive.source_of_unchanged hdisk, Archive.source_of_unchanged hdisk', hsource, hsource']
  have hsize : e.size = source.content.size := by
    rw [Entry.size_of_byteSize hrecovers.size, Nat.mod_eq_of_lt (hfiles.fits _ hmem)]
  exact .intact hfault hfault' hcontent hsize hrecovers.checksum

end ArchiveOrigin

/-- An archive does not depend on what its files are kept in. From a directory, a container or
memory, in whatever order and with whatever is passed over beside them, files under portable names
are refused if two of the names mean the same path, and otherwise make archives that list the same
and have the same directories. Mounted under the same name and priority, such archives answer alike
to everything, down to the content that is extracted, whatever else is mounted or unmounted before
and after. -/
theorem container_independence {files : List (String × ByteArray)} (hfiles : PortableFiles files)
    {origin origin' : ArchiveOrigin} {d d' : Disk} (h : origin.Carries d files)
    (h' : origin'.Carries d' files) :
    ((∃ text, origin.load d = .error (.duplicateEntry origin.id text)) ↔ Clash files) ∧
    ((∃ text, origin'.load d' = .error (.duplicateEntry origin'.id text)) ↔ Clash files) ∧
    (¬ Clash files → ∃ a a', origin.load d = .ok a ∧ origin'.load d' = .ok a' ∧
      a.id = origin.id ∧ a'.id = origin'.id ∧ a.Lists files ∧ a'.Lists files ∧
      (∀ path, (a.find? path).map Entry.facts = (a'.find? path).map Entry.facts) ∧
      (∀ dir, a.children? dir = a'.children? dir) ∧ a.totalBytes = a'.totalBytes ∧
      (origin.id = origin'.id → ∀ s s', a.Unchanged d s → a'.Unchanged d' s' →
        ∀ priority before after,
          (∀ other q, .mount other q ∈ before ++ after → other.Unchanged s s') →
          Overlay.Agrees s s' (MountRun.of (before ++ .mount a priority :: after)).table.overlay
            (MountRun.of (before ++ .mount a' priority :: after)).table.overlay)) := by
  refine ⟨h.refused_iff hfiles, h'.refused_iff hfiles, ?_⟩
  intro hclash
  obtain ⟨-, a, ha, hid, hlists⟩ :=
    (h.load_cases hfiles).resolve_left fun hrefused => hclash hrefused.1
  obtain ⟨-, a', ha', hid', hlists'⟩ :=
    (h'.load_cases hfiles).resolve_left fun hrefused => hclash hrefused.1
  have hsame := hlists.sameFiles hlists'
  refine ⟨a, a', ha, ha', hid, hid', hlists, hlists', hsame.find?, hsame.children?,
    hsame.totalBytes, ?_⟩
  intro hids s s' hdisk hdisk' priority before after hothers
  rw [← hid, ← hid'] at hids
  exact exchange_agrees (h.alike h' hfiles hclash ha ha' hsame hids hdisk hdisk') priority before
    after hothers

namespace Disk

/-- The disk with two files and a directory in a directory that is called like a container. -/
def unpacked : Disk :=
  { nodes := [(["a.zip"], .directory), (["a.zip", "a"], .file (.regular 0)),
      (["a.zip", "b"], .file (.regular 1)), (["a.zip", "d"], .directory)]
    contents := [(0, ⟨#[120]⟩), (1, ⟨#[121]⟩)] }

theorem places_unpacked {names : Location} (h : unpacked.node? (["a.zip"] ++ names) ≠ none) :
    names ∈ [[], ["a"], ["b"], ["d"]] := by
  have hmem := mem_places_of_node? (by simp) h
  simpa [unpacked] using hmem

theorem proper_unpacked : unpacked.Proper :=
  proper_of_places (by decide) rfl

theorem holdsFiles_unpacked :
    unpacked.HoldsFiles "a.zip" ["a.zip"] [("b", ⟨#[121]⟩), ("a", ⟨#[120]⟩)] where
  found := find_eq_ok_iff.mpr ⟨⟨by decide, by decide, by decide⟩,
    .directory ⟨by decide, by decide, by decide, by decide⟩ rfl (.here rfl)⟩
  proper := proper_unpacked
  places := by decide
  files := by
    intro names content
    constructor
    · rintro ⟨number, hnode, rfl⟩
      rw [node?_eq_some_iff (by decide) (by simp)] at hnode
      simp only [unpacked, List.mem_cons, List.cons_append, List.nil_append, Prod.mk.injEq,
        List.cons.injEq, true_and, reduceCtorEq, and_false, false_or, or_false, List.not_mem_nil,
        Node.file.injEq, FileId.regular.injEq] at hnode
      rcases hnode with ⟨rfl, rfl⟩ | ⟨rfl, rfl⟩
      · exact ⟨"a", List.mem_cons_of_mem _ (List.mem_singleton_self _), rfl⟩
      · exact ⟨"b", List.mem_cons_self, rfl⟩
    · rintro ⟨name, hfile, rfl⟩
      simp only [List.mem_cons, Prod.mk.injEq, List.not_mem_nil, or_false] at hfile
      rcases hfile with ⟨rfl, rfl⟩ | ⟨rfl, rfl⟩
      · exact ⟨1, rfl, rfl⟩
      · exact ⟨0, rfl, rfl⟩
  named := by
    intro names hnode
    have hall : ∀ names ∈ [[], ["a"], ["b"], ["d"]], ∀ name ∈ names,
        (name ≠ "" ∧ name ≠ "." ∧ name ≠ ".." ∧ name.utf8ByteSize ≤ 255) ∧ '/' ∉ name.toList := by
      decide
    intro name hname
    obtain ⟨⟨hempty, hdot, hdots, hfits⟩, hslash⟩ := hall names (places_unpacked hnode) name hname
    exact ⟨⟨hempty, hdot, hdots, hfits⟩, hslash⟩
  opens := by
    intro names hne hnode
    have hnames := places_unpacked hnode
    simp only [List.mem_cons, hne, false_or, List.not_mem_nil, or_false] at hnames
    rcases hnames with rfl | rfl | rfl
    all_goals exact ⟨by decide, by decide, by decide⟩

end Disk

/-- In the directory the files come in the order of their names, in the container in another one
and with a directory before them. -/
theorem container_independence_unpacked : ∃ a a',
    PortableFiles [("b", ⟨#[121]⟩), ("a", ⟨#[120]⟩)] ∧
    (ArchiveOrigin.zip Zip.reader "a.zip").load (.boxed Zip.packed) = .ok a ∧
    (ArchiveOrigin.directory "a.zip").load .unpacked = .ok a' ∧
    a.totalBytes = a'.totalBytes ∧
    Overlay.Agrees (.boxed Zip.packed) .unpacked (MountRun.of [.mount a 0]).table.overlay
      (MountRun.of [.mount a' 0]).table.overlay := by
  have hfiles : PortableFiles [("b", ⟨#[121]⟩), ("a", ⟨#[120]⟩)] := by
    refine ⟨by decide, ?_, ?_⟩
    · simp only [List.forall_mem_cons]
      exact ⟨⟨by decide, by decide, ⟨["b"]⟩, rfl, by decide⟩,
        ⟨by decide, by decide, ⟨["a"]⟩, rfl, by decide⟩, by simp⟩
    · simp only [List.forall_mem_cons]
      exact ⟨by decide, by decide, by simp⟩
  have hzip : (ArchiveOrigin.zip Zip.reader "a.zip").Carries (.boxed Zip.packed)
      [("b", ⟨#[121]⟩), ("a", ⟨#[120]⟩)] := by
    obtain ⟨directory, hdirectory, -, -⟩ := Zip.exists_source_packedDirectory
    have hmembers := Zip.reader_eq Zip.parse?_packed
    refine ⟨_, _, [Zip.packedY, Zip.packedX].map Zip.Member.toContainerMember,
      [Zip.packedDirectory.toContainerMember], Disk.seen_boxed _, hmembers,
      fun _ => Zip.getLast?_of_isDirectory hmembers, (List.perm_append_singleton _ _).symm,
      .cons ⟨rfl, Zip.exists_source_packedY⟩ (.cons ⟨rfl, Zip.exists_source_packedX⟩ .nil), ?_⟩
    intro member hmember
    obtain rfl := List.mem_singleton.mp hmember
    exact ⟨⟨directory, hdirectory⟩, .inl rfl⟩
  have hdirectory : (ArchiveOrigin.directory "a.zip").Carries .unpacked
      [("b", ⟨#[121]⟩), ("a", ⟨#[120]⟩)] := ⟨_, Disk.holdsFiles_unpacked⟩
  have hclash : ¬ Clash [("b", ⟨#[121]⟩), ("a", ⟨#[120]⟩)] := by
    rintro ⟨file, hfile, other, hother, hne, hsame⟩
    simp only [List.mem_cons, List.not_mem_nil, or_false] at hfile hother
    rcases hfile with rfl | rfl <;> rcases hother with rfl | rfl
    · exact hne rfl
    · cases hsame
    · cases hsame
    · exact hne rfl
  obtain ⟨-, -, hloads⟩ := container_independence hfiles hzip hdirectory
  obtain ⟨a, a', ha, ha', -, -, -, -, -, -, hbytes, hagrees⟩ := hloads hclash
  exact ⟨a, a', hfiles, ha, ha', hbytes, hagrees rfl _ _ (fun _ _ => rfl) (fun _ _ => rfl) 0 [] []
    fun _ _ hmem => by cases hmem⟩

end ArchiveOverlay
