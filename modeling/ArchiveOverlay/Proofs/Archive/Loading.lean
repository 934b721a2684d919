import ArchiveOverlay.Archive.Load
import ArchiveOverlay.Archive.Memory
import ArchiveOverlay.Proofs.Archive.Entries
import ArchiveOverlay.Proofs.Disk.Frame
import ArchiveOverlay.Proofs.Extract.Streaming
import ArchiveOverlay.Proofs.Zip.Members
import Mathlib.Algebra.BigOperators.Group.List.Basic
import Mathlib.Data.List.Forall2

namespace ArchiveOverlay

/-- Where the files behind an archive are on disk. -/
def Backing.paths : Backing → List String
  | directory root files => files.map (HostPath.join root)
  | zip _ container => [container]
  | memory _ => []

/-- The file that is read for a handle. -/
def Backing.pathAt (handle : Nat) : Backing → Option String
  | directory root files => files[handle]?.map (HostPath.join root)
  | zip _ container => some container
  | memory _ => none

theorem Backing.pathAt_mem_paths {b : Backing} {handle : Nat} {path : String}
    (h : b.pathAt handle = some path) : path ∈ b.paths := by
  cases b with
  | directory root files =>
      obtain ⟨file, hfile, rfl⟩ := Option.map_eq_some_iff.mp h
      exact List.mem_map_of_mem (List.mem_of_getElem? hfile)
  | zip reader container =>
      obtain rfl := Option.some.inj h
      exact List.mem_singleton_self container
  | memory contents => cases h

/-- What is read under a path: the content of a file, or none where a directory is. -/
def Disk.seen (d : Disk) (path : String) : Except IoFault (Option ByteArray) :=
  (d.find path).map fun (_, node) => d.nodeContent? node

/-- That the files behind an archive are on one disk what they are on another. -/
def Archive.Unchanged (a : Archive) (d d' : Disk) : Prop :=
  ∀ path ∈ a.backing.paths, d'.seen path = d.seen path

/-- The content of a member of a container, given the bytes of the container. -/
def memberSource (reader : ContainerReader) (data : ByteArray) (id : ArchiveId) (handle : Nat) :
    Except Error Source :=
  match reader data with
  | none => .error .zip
  | some members =>
    match members[handle]? with
    | none => .error (.invalidHandle id)
    | some member =>
      match member.source? data with
      | none => .error .zip
      | some source => .ok source

/-- The content behind a handle, given what is seen at the paths of the files. -/
def Backing.sourceSeen (id : ArchiveId) (seen : String → Except IoFault (Option ByteArray))
    (handle : Nat) : Backing → Except Error Source
  | directory root files =>
    match files[handle]? with
    | none => .error (.invalidHandle id)
    | some file =>
      match seen (HostPath.join root file) with
      | .error fault => .error (.io fault)
      | .ok (some content) => .ok (.ofContent content)
      | .ok none => .ok (.failing .isADirectory)
  | zip reader container =>
    match seen container with
    | .error fault => .error (.io fault)
    | .ok (some data) => memberSource reader data id handle
    | .ok none => .error .zip
  | memory contents =>
    match contents[handle]? with
    | none => .error (.invalidHandle id)
    | some content => .ok (.ofContent content)

theorem Disk.seen_of_find {d : Disk} {path : String} {place : Location} {id : FileId}
    (h : d.find path = .ok (place, .file id)) : d.seen path = .ok (some (d.content id)) := by
  rw [seen, h]
  rfl

theorem Disk.exists_find_of_seen {d : Disk} {path : String} {content : ByteArray}
    (h : d.seen path = .ok (some content)) :
    ∃ place id, d.find path = .ok (place, .file id) ∧ d.content id = content := by
  rw [seen] at h
  rcases hfind : d.find path with fault | ⟨place, node⟩
  · simp [hfind, Except.map] at h
  · cases node with
    | file id => exact ⟨place, id, rfl, by simpa [hfind, Except.map, nodeContent?] using h⟩
    | directory => simp [hfind, Except.map, nodeContent?] at h
    | link target => simp [hfind, Except.map, nodeContent?] at h

theorem OpenContainer.source_eq {reader : ContainerReader} {opened : OpenContainer} {d : Disk}
    (hmembers : reader (d.content opened.file) = some opened.members) (id : ArchiveId)
    (handle : Nat) :
    opened.source d id handle = memberSource reader (d.content opened.file) id handle := by
  rw [memberSource, hmembers]
  rfl

theorem memberSource_eq {reader : ContainerReader} {data : ByteArray}
    {members : List ContainerMember} {member : ContainerMember} {handle : Nat}
    (hmembers : reader data = some members)
    (hmember : members[handle]? = some member) (id : ArchiveId) :
    memberSource reader data id handle =
      match member.source? data with
      | none => .error .zip
      | some source => .ok source := by
  rw [memberSource, hmembers]
  simp only [hmember]

theorem openContainer_ok {reader : ContainerReader} {d : Disk} {path : String}
    {opened : OpenContainer} (h : openContainer reader d path = .ok opened) :
    (∃ place, d.find path = .ok (place, .file opened.file)) ∧
      reader (d.content opened.file) = some opened.members := by
  unfold openContainer at h
  split at h
  · cases h
  next place id hfind =>
    split at h
    next members hmembers =>
      cases h
      exact ⟨⟨place, hfind⟩, hmembers⟩
    · cases h
  · cases h

theorem fileSource_eq (d : Disk) (path : String) :
    fileSource d path =
      match d.seen path with
      | .error fault => .error (.io fault)
      | .ok (some content) => .ok (.ofContent content)
      | .ok none => .ok (.failing .isADirectory) := by
  rw [fileSource, Disk.seen]
  cases d.find path with
  | error fault => rfl
  | ok found =>
      rcases found with ⟨place, node⟩
      cases node <;> rfl

theorem openContainer_source_eq (reader : ContainerReader) (d : Disk) (path : String)
    (id : ArchiveId) (handle : Nat) :
    (openContainer reader d path >>= fun opened => opened.source d id handle) =
      match d.seen path with
      | .error fault => .error (.io fault)
      | .ok (some data) => memberSource reader data id handle
      | .ok none => .error .zip := by
  cases hopen : openContainer reader d path with
  | ok opened =>
      obtain ⟨⟨place, hfind⟩, hmembers⟩ := openContainer_ok hopen
      rw [Disk.seen_of_find hfind]
      exact OpenContainer.source_eq hmembers id handle
  | error e =>
      unfold openContainer at hopen
      rw [Disk.seen]
      split at hopen
      next fault hfind =>
        cases hopen
        rw [hfind]
        rfl
      next place file hfind =>
        split at hopen
        · cases hopen
        next hmembers =>
          cases hopen
          rw [hfind]
          simp [Except.map, Disk.nodeContent?, memberSource, hmembers, bind, Except.bind]
      next found hfile hfind =>
        cases hopen
        rw [hfind]
        rcases found with ⟨place, node⟩
        cases node with
        | file file => exact absurd rfl (hfile place file)
        | directory => rfl
        | link target => rfl

/-- The content behind a handle depends on the disk only through what is seen at the paths. -/
theorem Archive.source_eq (a : Archive) (d : Disk) (handle : Nat) :
    a.source d handle = a.backing.sourceSeen a.id d.seen handle := by
  rw [source]
  cases a.backing with
  | directory root files =>
      dsimp only [Backing.sourceSeen]
      cases files[handle]? with
      | none => rfl
      | some file => exact fileSource_eq d (HostPath.join root file)
  | zip reader container => exact openContainer_source_eq reader d container a.id handle
  | memory contents => rfl

theorem Backing.sourceSeen_congr {b : Backing} {handle : Nat}
    {seen seen' : String → Except IoFault (Option ByteArray)}
    (h : ∀ path, b.pathAt handle = some path → seen' path = seen path) (id : ArchiveId) :
    b.sourceSeen id seen' handle = b.sourceSeen id seen handle := by
  cases b with
  | directory root files =>
      rw [sourceSeen, sourceSeen]
      cases hfile : files[handle]? with
      | none => rfl
      | some file =>
          dsimp only
          rw [h _ (by rw [pathAt, hfile, Option.map_some])]
  | zip reader container => rw [sourceSeen, sourceSeen, h container rfl]
  | memory contents => rfl

theorem Archive.source_of_unchanged {a : Archive} {d d' : Disk} (h : a.Unchanged d d')
    (handle : Nat) :
    a.source d' handle = a.source d handle := by
  rw [a.source_eq, a.source_eq, Backing.sourceSeen_congr fun path hpath =>
    h path (Backing.pathAt_mem_paths hpath)]

theorem forall₂_of_mapM {α β : Type} {f : α → Except Error β} {xs : List α} {ys : List β}
    (h : xs.mapM f = .ok ys) : List.Forall₂ (fun x y => f x = .ok y) xs ys := by
  induction xs generalizing ys with
  | nil =>
      rw [List.mapM_nil] at h
      cases h
      exact .nil
  | cons x xs ih =>
      rw [List.mapM_cons] at h
      cases hx : f x with
      | error e => simp [hx, bind, Except.bind] at h
      | ok y =>
          cases hxs : xs.mapM f with
          | error e => simp [hx, hxs, bind, Except.bind] at h
          | ok rest =>
              rw [hx, hxs] at h
              cases h
              exact .cons hx (ih hxs)

theorem exists_of_mem_right {α β : Type} {R : α → β → Prop} {xs : List α} {ys : List β}
    (h : List.Forall₂ R xs ys) {y : β} (hy : y ∈ ys) : ∃ x ∈ xs, R x y := by
  induction h with
  | nil => cases hy
  | @cons x first xs ys hx _ ih =>
      rcases List.mem_cons.mp hy with rfl | hy
      · exact ⟨x, by simp, hx⟩
      · obtain ⟨other, hother, hR⟩ := ih hy
        exact ⟨other, by simp [hother], hR⟩

theorem map_eq_map_of_forall₂ {α β γ : Type} {f : α → γ} {g : β → γ} {xs : List α} {ys : List β}
    (h : List.Forall₂ (fun x y => f x = g y) xs ys) : xs.map f = ys.map g := by
  rw [← List.forall₂_eq_eq_eq, List.forall₂_map_left_iff, List.forall₂_map_right_iff]
  exact h

/-- What a row of steps brings, where some of them bring nothing. -/
theorem mem_filterMap_of_mapM {α β : Type} {f : α → Except Error (Option β)} {xs : List α}
    {ys : List (Option β)} (h : xs.mapM f = .ok ys) (y : β) :
    y ∈ ys.filterMap (fun y => y) ↔ ∃ x ∈ xs, f x = .ok (some y) := by
  have hsteps := forall₂_of_mapM h
  constructor
  · intro hy
    have hmem : some y ∈ ys := by simpa using hy
    exact exists_of_mem_right hsteps hmem
  · rintro ⟨x, hx, hstep⟩
    obtain ⟨y', hy', hstep'⟩ := exists_of_mem_right hsteps.flip hx
    obtain rfl : some y = y' := by simpa [hstep] using hstep'
    simpa using hy'

theorem Archive.indexEntries_forall₂ {id : ArchiveId} {raws : List RawEntry} {entries : List Entry}
    (h : indexEntries id raws = .ok entries) : List.Forall₂ RawEntry.Indexed raws entries := by
  induction raws using List.reverseRecOn generalizing entries with
  | nil =>
      cases h
      exact .nil
  | append_singleton raws last ih =>
      rw [indexEntries_concat] at h
      cases hbefore : indexEntries id raws with
      | error fault => simp [hbefore, Except.bind] at h
      | ok before =>
          rw [hbefore] at h
          obtain ⟨new, rfl, hindexed, -, -⟩ := addEntry_ok h
          exact List.rel_append (ih hbefore) (.cons hindexed .nil)

theorem Archive.build_ok {id : ArchiveId} {backing : Backing} {raws : List RawEntry} {a : Archive}
    (h : build id backing raws = .ok a) :
    a.id = id ∧ a.backing = backing ∧ List.Forall₂ RawEntry.Indexed raws a.entries := by
  unfold build at h
  split at h
  · cases h
  next entries hentries =>
    cases h
    exact ⟨rfl, rfl, indexEntries_forall₂ hentries⟩

/-- What an archive can be loaded from. -/
inductive ArchiveOrigin where
  | directory (root : String)
  | zip (reader : ContainerReader) (path : String)
  | memory (id : ArchiveId) (files : List (String × ByteArray))

namespace ArchiveOrigin

def load (d : Disk) : ArchiveOrigin → Except Error Archive
  | directory root => loadDirectory d root
  | zip reader path => loadContainer reader d path
  | memory id files =>
    Archive.ofMemory id (files.map fun (name, content) => .faithful name content)

/-- That a file of this name and content is there. Links and special files below a directory are
none, and neither are members of a container that stand for directories. -/
def Has (d : Disk) (name : String) (content : ByteArray) : ArchiveOrigin → Prop
  | directory root =>
    ∃ place node, d.find root = .ok (place, .directory) ∧ (name, node) ∈ d.tree place ∧
      node.isEntered = true ∧ d.seen (HostPath.join root name) = .ok (some content)
  | zip reader path =>
    ∃ data members member source, d.seen path = .ok (some data) ∧ reader data = some members ∧
      member ∈ members ∧ member.isDirectory = false ∧ member.name = name ∧
      member.source? data = some source ∧ source.content = content
  | memory _ files => (name, content) ∈ files

/-- What is known of a file when it is enumerated. -/
structure Stored (origin : ArchiveOrigin) (d : Disk) (a : Archive) (raw : RawEntry)
    (content : ByteArray) : Prop where
  has : origin.Has d raw.name content
  size : raw.byteSize = content.size.toUInt64
  checksum : raw.checksum = Digest.xxh3 content
  source : ∃ source, a.source d raw.handle = .ok source ∧ source.finalFault = none ∧
    source.content = content

/-- How an archive enumerates what it is loaded from. -/
structure Enumerates (origin : ArchiveOrigin) (d : Disk) (a : Archive) (raws : List RawEntry) :
    Prop where
  indexed : List.Forall₂ RawEntry.Indexed raws a.entries
  stored : ∀ raw ∈ raws, ∃ content, Stored origin d a raw content
  all : ∀ name content, origin.Has d name content →
    (∃ display, DisplayPath.parse name = .ok display ∧ display.segments ≠ []) →
    ∃ raw ∈ raws, raw.name = name ∧ Stored origin d a raw content

/-- Files numbered in their order, as they are enumerated. -/
def numbered (files : List (String × ByteArray)) : List RawEntry :=
  files.zipIdx.map fun ((name, content), handle) =>
    ⟨name, content.size.toUInt64, Digest.xxh3 content, handle⟩

theorem mem_numbered {files : List (String × ByteArray)} {raw : RawEntry} :
    raw ∈ numbered files ↔ ∃ handle name content, files[handle]? = some (name, content) ∧
      raw = ⟨name, content.size.toUInt64, Digest.xxh3 content, handle⟩ := by
  rw [numbered, List.mem_map]
  constructor
  · rintro ⟨⟨⟨name, content⟩, handle⟩, hmem, rfl⟩
    exact ⟨handle, name, content, List.mem_zipIdx_iff_getElem?.mp hmem, rfl⟩
  · rintro ⟨handle, name, content, hfile, rfl⟩
    exact ⟨((name, content), handle), List.mem_zipIdx_iff_getElem?.mpr hfile, rfl⟩

/-- Where the handles count the files, each file is found under its number. -/
theorem enumerates_numbered {origin : ArchiveOrigin} {d : Disk} {a : Archive}
    {files : List (String × ByteArray)}
    (hindexed : List.Forall₂ RawEntry.Indexed (numbered files) a.entries)
    (hhas : ∀ name content, origin.Has d name content ↔ (name, content) ∈ files)
    (hsource : ∀ handle name content, files[handle]? = some (name, content) →
      a.source d handle = .ok (.ofContent content)) :
    origin.Enumerates d a (numbered files) := by
  have hstored : ∀ handle name content, files[handle]? = some (name, content) →
      Stored origin d a ⟨name, content.size.toUInt64, Digest.xxh3 content, handle⟩ content := by
    intro handle name content hfile
    refine ⟨(hhas name content).mpr (List.mem_of_getElem? hfile), rfl, rfl, ?_⟩
    exact ⟨_, hsource handle name content hfile, Source.finalFault_ofContent content,
      Source.content_ofContent content⟩
  refine ⟨hindexed, ?_, ?_⟩
  · intro raw hraw
    obtain ⟨handle, name, content, hfile, rfl⟩ := mem_numbered.mp hraw
    exact ⟨content, hstored handle name content hfile⟩
  · intro name content hfile _
    obtain ⟨handle, hhandle⟩ := List.getElem?_of_mem ((hhas name content).mp hfile)
    exact ⟨_, mem_numbered.mpr ⟨handle, name, content, hhandle, rfl⟩, rfl,
      hstored handle name content hhandle⟩

theorem enumerates_memory {d : Disk} {id : ArchiveId} {files : List (String × ByteArray)}
    {a : Archive} (h : (memory id files).load d = .ok a) :
    ∃ raws, (memory id files).Enumerates d a raws := by
  obtain ⟨-, hbacking, hindexed⟩ := Archive.build_ok h
  rw [List.map_map] at hbacking
  rw [List.zipIdx_map, List.map_map] at hindexed
  refine ⟨numbered files, enumerates_numbered hindexed (fun _ _ => Iff.rfl) ?_⟩
  intro handle name content hfile
  rw [a.source_eq, hbacking, Backing.sourceSeen, List.getElem?_map, hfile]
  rfl

theorem openFound?_eq_some {d : Disk} {root path name : String} {node : Node}
    {content : ByteArray} :
    openFound? d root (path, node) = .ok (some (name, content)) ↔
      path = name ∧ node.isEntered = true ∧
        d.seen (HostPath.join root path) = .ok (some content) := by
  rw [openFound?, Disk.seen]
  by_cases hnode : node.isEntered = true
  · rw [if_pos hnode]
    rcases d.find (HostPath.join root path) with fault | ⟨place, found⟩
    · simp [Except.map]
    · cases hfound : d.nodeContent? found <;> simp [Except.map, hfound, hnode]
  · simp [hnode]

theorem mem_filesBelow {d : Disk} {root : String} {place : Location}
    {files : List (String × ByteArray)} (h : filesBelow d root place = .ok files) (name : String)
    (content : ByteArray) :
    (name, content) ∈ files ↔ ∃ node, (name, node) ∈ d.tree place ∧
      node.isEntered = true ∧ d.seen (HostPath.join root name) = .ok (some content) := by
  cases hfound : (d.tree place).mapM (openFound? d root) with
  | error e => simp [filesBelow, hfound, bind, Except.bind] at h
  | ok found =>
      rw [filesBelow, hfound] at h
      cases h
      rw [mem_filterMap_of_mapM hfound]
      constructor
      · rintro ⟨⟨path, node⟩, hmem, hopen⟩
        obtain ⟨rfl, hnode, hseen⟩ := openFound?_eq_some.mp hopen
        exact ⟨node, hmem, hnode, hseen⟩
      · rintro ⟨node, hmem, hnode, hseen⟩
        exact ⟨(name, node), hmem, openFound?_eq_some.mpr ⟨rfl, hnode, hseen⟩⟩

theorem mem_directoryFiles {d : Disk} {root : String} {files : List (String × ByteArray)}
    (h : directoryFiles d root = .ok files) :
    (∃ content, files = [("", content)]) ∨
      ∀ name content, (directory root).Has d name content ↔ (name, content) ∈ files := by
  have hbelow : ∀ place, d.find root = .ok (place, .directory) →
      filesBelow d root place = .ok files →
        ∀ name content, (directory root).Has d name content ↔ (name, content) ∈ files := by
    intro place hfind hfiles name content
    rw [mem_filesBelow hfiles]
    constructor
    · rintro ⟨place', node, hfind', hrest⟩
      obtain rfl : place = place' := by simpa [hfind] using hfind'
      exact ⟨node, hrest⟩
    · rintro ⟨node, hrest⟩
      exact ⟨place, node, hfind, hrest⟩
  have hnone : ∀ place node, d.find root = .ok (place, node) → node ≠ .directory → files = [] →
      ∀ name content, (directory root).Has d name content ↔ (name, content) ∈ files := by
    rintro place node hfind hnode rfl name content
    refine ⟨?_, fun hmem => by cases hmem⟩
    rintro ⟨place', node', hdirectory, -⟩
    rw [hfind] at hdirectory
    exact absurd (Prod.mk.inj (Except.ok.inj hdirectory)).2 hnode
  unfold directoryFiles at h
  split at h
  · cases h
  · cases h
  next place hlocate =>
    cases h
    exact .inr (hnone place _ (Disk.find_of_locate_file hlocate) (by simp) rfl)
  next id _ _ =>
    cases h
    exact .inl ⟨d.content id, rfl⟩
  next place hlocate => exact .inr (hbelow place (Disk.find_of_locate hlocate) h)
  next =>
    split at h
    · cases h
    next place hfind => exact .inr (hbelow place hfind h)
    next other hother hfind =>
      cases h
      refine .inr (hnone other.1 other.2 hfind ?_ rfl)
      intro hdirectory
      exact hother other.1 (by rw [← hdirectory])

/-- A directory that loads is no file, and its files are all that the archive reads. -/
theorem exists_directoryFiles {d : Disk} {root : String} {a : Archive}
    (h : (directory root).load d = .ok a) :
    ∃ files, a.backing = .directory root (files.map Prod.fst) ∧
      List.Forall₂ RawEntry.Indexed (numbered files) a.entries ∧
      ∀ name content, (directory root).Has d name content ↔ (name, content) ∈ files := by
  cases hfiles : directoryFiles d root with
  | error e => simp [load, loadDirectory, hfiles, bind, Except.bind] at h
  | ok files =>
      rw [load, loadDirectory, hfiles] at h
      obtain ⟨-, hbacking, hindexed⟩ := Archive.build_ok h
      refine ⟨files, hbacking, hindexed, ?_⟩
      rcases mem_directoryFiles hfiles with ⟨content, rfl⟩ | hhas
      · -- The root is no path of an entry.
        obtain ⟨e, he, hparse, -⟩ := exists_of_mem_right hindexed.flip (List.mem_singleton.mpr rfl)
        obtain ⟨-, -, hsegments⟩ := a.exists_name he
        have hroot : DisplayPath.parse "" = .ok ⟨[]⟩ := rfl
        rw [← Except.ok.inj (hroot.symm.trans hparse)] at hsegments
        exact absurd rfl hsegments
      · exact hhas

theorem enumerates_directory {d : Disk} {root : String} {a : Archive}
    (h : (directory root).load d = .ok a) : ∃ raws, (directory root).Enumerates d a raws := by
  obtain ⟨files, hbacking, hindexed, hhas⟩ := exists_directoryFiles h
  refine ⟨numbered files, enumerates_numbered hindexed hhas ?_⟩
  intro handle name content hfile
  obtain ⟨-, -, -, -, -, hseen⟩ := (hhas name content).mpr (List.mem_of_getElem? hfile)
  rw [a.source_eq, hbacking, Backing.sourceSeen, List.getElem?_map, hfile]
  simp only [Option.map_some, hseen]

theorem enumerate?_ok {opened : OpenContainer} {d : Disk} {id : ArchiveId}
    {member : ContainerMember} {handle : Nat} {result : Option RawEntry}
    (h : opened.enumerate? d id member handle = .ok result) :
    ∃ source, opened.source d id handle = .ok source ∧
      (result.isSome → source.finalFault = none) ∧
      ∀ raw, result = some raw ↔
        member.isDirectory = false ∧
        (∃ display, DisplayPath.parse member.name = .ok display ∧ display.segments ≠ []) ∧
        raw = ⟨member.name, source.content.size.toUInt64, Digest.xxh3 source.content, handle⟩ := by
  cases hsource : opened.source d id handle with
  | error e => simp [OpenContainer.enumerate?, hsource, bind, Except.bind] at h
  | ok source =>
      refine ⟨source, rfl, ?_⟩
      simp only [OpenContainer.enumerate?, hsource, bind, Except.bind] at h
      split at h
      next hdirectory =>
        cases h
        simp [hdirectory]
      next hdirectory =>
        split at h
        next hparse =>
          cases h
          simp [hparse]
        next display hparse =>
          split at h
          next hroot =>
            cases h
            simp only [List.isEmpty_iff] at hroot
            simp [hparse, hroot]
          next hroot =>
            split at h
            · cases h
            next hfault =>
              cases h
              simp only [List.isEmpty_iff] at hroot
              simp [hdirectory, hparse, hroot, hfault, eq_comm]

/-- What is enumerated for a member of a container is what the archive reads there. -/
theorem stored_of_enumerate? {reader : ContainerReader} {d : Disk} {path : String} {a : Archive}
    {opened : OpenContainer} {id : ArchiveId} {member : ContainerMember} {handle : Nat}
    {raw : RawEntry}
    (hbacking : a.backing = .zip reader path) (hopen : openContainer reader d path = .ok opened)
    (hmember : opened.members[handle]? = some member)
    (hentry : opened.enumerate? d id member handle = .ok (some raw)) :
    raw.name = member.name ∧ ∃ source, member.source? (d.content opened.file) = some source ∧
      Stored (zip reader path) d a raw source.content := by
  obtain ⟨⟨place, hfind⟩, hmembers⟩ := openContainer_ok hopen
  have hseen := Disk.seen_of_find hfind
  obtain ⟨source, hopened, hfault, hraw⟩ := enumerate?_ok hentry
  obtain ⟨hnodirectory, -, rfl⟩ := (hraw raw).mp rfl
  rw [OpenContainer.source_eq hmembers, memberSource_eq hmembers hmember] at hopened
  cases hread : member.source? (d.content opened.file) with
  | none => simp [hread] at hopened
  | some read =>
      obtain rfl : read = source := by simpa [hread] using hopened
      have hhas : (zip reader path).Has d member.name read.content :=
        ⟨_, _, member, read, hseen, hmembers, List.mem_of_getElem? hmember, hnodirectory, rfl,
          hread, rfl⟩
      have hsource : a.source d handle = .ok read := by
        rw [a.source_eq, hbacking, Backing.sourceSeen, hseen]
        exact (memberSource_eq hmembers hmember a.id).trans (by rw [hread])
      exact ⟨rfl, read, rfl, hhas, rfl, rfl, read, hsource, hfault rfl, rfl⟩

theorem opened_of_loadContainer {reader : ContainerReader} {d : Disk} {path : String} {a : Archive}
    (h : loadContainer reader d path = .ok a) :
    a.backing = .zip reader path ∧ ∃ opened, openContainer reader d path = .ok opened := by
  cases hopen : openContainer reader d path with
  | error e => simp [loadContainer, hopen, bind, Except.bind] at h
  | ok opened =>
      rw [loadContainer, hopen] at h
      simp only [bind, Except.bind] at h
      split at h
      · cases h
      · obtain ⟨-, hbacking, -⟩ := Archive.build_ok h
        exact ⟨hbacking, opened, rfl⟩

theorem enumerates_zip {reader : ContainerReader} {d : Disk} {path : String} {a : Archive}
    (h : (zip reader path).load d = .ok a) : ∃ raws, (zip reader path).Enumerates d a raws := by
  cases hopen : openContainer reader d path with
  | error e => simp [load, loadContainer, hopen, bind, Except.bind] at h
  | ok opened =>
      rw [load, loadContainer, hopen] at h
      simp only [bind, Except.bind] at h
      split at h
      · cases h
      next raws hraws =>
        obtain ⟨-, hbacking, hindexed⟩ := Archive.build_ok h
        obtain ⟨⟨place, hfind⟩, hmembers⟩ := openContainer_ok hopen
        refine ⟨_, hindexed, ?_, ?_⟩
        · intro raw hmem
          obtain ⟨⟨member, handle⟩, hmember, hentry⟩ := (mem_filterMap_of_mapM hraws raw).mp hmem
          obtain ⟨-, source, -, hstored⟩ := stored_of_enumerate? hbacking hopen
            (List.mem_zipIdx_iff_getElem?.mp hmember) hentry
          exact ⟨source.content, hstored⟩
        · rintro name content ⟨data, members, member, source, hseen, hmembers', hmember,
            hnodirectory, rfl, hread, rfl⟩ hdisplay
          obtain rfl : d.content opened.file = data := by
            simpa [Disk.seen_of_find hfind] using hseen
          obtain rfl : opened.members = members := by simpa [hmembers] using hmembers'
          -- The handle counts all members, those that are passed over, too.
          obtain ⟨handle, hhandle⟩ := List.getElem?_of_mem hmember
          have hnumber : (member, handle) ∈ opened.members.zipIdx :=
            List.mem_zipIdx_iff_getElem?.mpr hhandle
          obtain ⟨result, -, hentry⟩ := exists_of_mem_right (forall₂_of_mapM hraws).flip hnumber
          obtain ⟨_, -, -, hraw⟩ := enumerate?_ok hentry
          obtain rfl := (hraw _).mpr ⟨hnodirectory, hdisplay, rfl⟩
          obtain ⟨hname, source', hread', hstored⟩ :=
            stored_of_enumerate? hbacking hopen hhandle hentry
          obtain rfl : source = source' := by simpa [hread] using hread'
          have hmem := (mem_filterMap_of_mapM hraws _).mpr ⟨(member, handle), hnumber, hentry⟩
          exact ⟨_, hmem, hname, hstored⟩

theorem exists_enumerates (origin : ArchiveOrigin) {d : Disk} {a : Archive}
    (h : origin.load d = .ok a) : ∃ raws, origin.Enumerates d a raws := by
  cases origin with
  | directory root => exact enumerates_directory h
  | zip reader path => exact enumerates_zip h
  | memory id files => exact enumerates_memory h

/-- What an entry of a loaded archive stands for. -/
structure Recovers (origin : ArchiveOrigin) (d : Disk) (a : Archive) (e : Entry)
    (content : ByteArray) :
    Prop where
  has : ∃ name, origin.Has d name content ∧ Path.parse name = .ok e.path
  unique : ∀ name other, origin.Has d name other → Path.parse name = .ok e.path → other = content
  size : e.byteSize = content.size.toUInt64
  checksum : e.checksum = Digest.xxh3 content
  source : ∃ source, a.source d e.handle = .ok source ∧ source.finalFault = none ∧
    source.content = content

theorem exists_display {name : String} {path : Path} (h : Path.parse name = .ok path) :
    ∃ display, DisplayPath.parse name = .ok display ∧ .ofDisplay display = path := by
  rw [Path.parse] at h
  cases hdisplay : DisplayPath.parse name with
  | error fault => simp [hdisplay, Except.map] at h
  | ok display => exact ⟨display, rfl, by simpa [hdisplay, Except.map] using h⟩

theorem exists_display_of_entry {a : Archive} {e : Entry} (he : e ∈ a.entries) {name : String}
    (h : Path.parse name = .ok e.path) :
    ∃ display, DisplayPath.parse name = .ok display ∧ display.segments ≠ [] := by
  obtain ⟨display, hdisplay, hpath⟩ := exists_display h
  refine ⟨display, hdisplay, ?_⟩
  obtain ⟨-, -, hne⟩ := a.exists_name he
  intro hnil
  rw [Path.ofDisplay, hnil, e.path_eq, Path.ofDisplay] at hpath
  simp [hne] at hpath

theorem Enumerates.exists_recovers {origin : ArchiveOrigin} {d : Disk} {a : Archive}
    {raws : List RawEntry} (h : origin.Enumerates d a raws) {e : Entry} (he : e ∈ a.entries) :
    ∃ content, Recovers origin d a e content := by
  obtain ⟨raw, hraw, hindexed⟩ := exists_of_mem_right h.indexed he
  obtain ⟨content, hstored⟩ := h.stored raw hraw
  have hsource := hstored.source
  rw [← hindexed.handle] at hsource
  refine ⟨content, ⟨raw.name, hstored.has, ?_⟩, ?_, hindexed.byteSize.trans hstored.size,
    hindexed.checksum.trans hstored.checksum, hsource⟩
  · rw [Path.parse, hindexed.parse, e.path_eq]
    rfl
  · intro name other hhas hparse
    obtain ⟨raw', hraw', rfl, hstored'⟩ :=
      h.all name other hhas (exists_display_of_entry he hparse)
    obtain ⟨e', he', hindexed'⟩ := exists_of_mem_right h.indexed.flip hraw'
    have hsame : e' = e := by
      apply a.eq_of_path_eq he' he
      rw [Path.parse, hindexed'.parse] at hparse
      rw [e'.path_eq, ← Except.ok.inj hparse]
    -- One entry has one handle, and a handle one content.
    obtain ⟨source, hread, -, rfl⟩ := hsource
    obtain ⟨source', hread', -, rfl⟩ := hstored'.source
    rw [← hindexed'.handle, hsame, hread] at hread'
    rw [Except.ok.inj hread']

end ArchiveOrigin

theorem exists_forall₂ {α β : Type} {R : α → β → Prop} {xs : List α} (h : ∀ x ∈ xs, ∃ y, R x y) :
    ∃ ys, List.Forall₂ R xs ys := by
  induction xs with
  | nil => exact ⟨[], .nil⟩
  | cons x xs ih =>
      obtain ⟨y, hy⟩ := h x (by simp)
      obtain ⟨ys, hys⟩ := ih fun other hother => h other (by simp [hother])
      exact ⟨y :: ys, .cons hy hys⟩

theorem Resolved.extractBytes_of_source {r : Resolved} {d : Disk} {source : Source}
    (h : r.archive.source d r.entry.handle = .ok source) (hfault : source.finalFault = none)
    (hsize : r.entry.size = source.content.size)
    (hchecksum : r.entry.checksum = Digest.xxh3 source.content) (verify : Bool) :
    r.extractBytes d verify false = .ok source.content := by
  rw [extractBytes, extract, h, deliver]
  simp only [stream_recorded hfault hsize hchecksum]

theorem Resolved.extractBytes_of_content {r : Resolved} {d : Disk} {content : ByteArray}
    (h : r.archive.source d r.entry.handle = .ok (.ofContent content))
    (hsize : r.entry.size = content.size) (hchecksum : r.entry.checksum = Digest.xxh3 content)
    (verify : Bool) : r.extractBytes d verify false = .ok content := by
  have hbytes := r.extractBytes_of_source h (Source.finalFault_ofContent _)
    (by rwa [Source.content_ofContent]) (by rwa [Source.content_ofContent]) verify
  rwa [Source.content_ofContent] at hbytes

theorem mapM_eq_ok_map {α β : Type} {f : α → Except Error β} {g : α → β} {xs : List α}
    (h : ∀ x ∈ xs, f x = .ok (g x)) : xs.mapM f = .ok (xs.map g) := by
  induction xs with
  | nil => rfl
  | cons x xs ih =>
      rw [List.mapM_cons, h x (by simp), ih fun y hy => h y (by simp [hy])]
      rfl

/-- The file that a member of a container stands for. -/
def ContainerMember.file? (data : ByteArray) (member : ContainerMember) :
    Option (String × ByteArray) :=
  if member.isDirectory then none
  else
    match DisplayPath.parse member.name with
    | .error _ => none
    | .ok display =>
      if display.segments.isEmpty then none
      else (member.source? data).map fun source => (member.name, source.content)

theorem ContainerMember.file?_of_source {member : ContainerMember} {data : ByteArray}
    {display : DisplayPath} {source : Source} (hfile : member.isDirectory = false)
    (hparse : DisplayPath.parse member.name = .ok display) (hsegments : display.segments ≠ [])
    (hread : member.source? data = some source) :
    member.file? data = some (member.name, source.content) := by
  rw [file?, hfile, hparse, hread]
  simp [hsegments]

/-- What is enumerated for a numbered member. -/
def ContainerMember.raw? (data : ByteArray) : ContainerMember × Nat → Option RawEntry
  | (member, handle) => (member.file? data).map fun (name, content) =>
      ⟨name, content.size.toUInt64, Digest.xxh3 content, handle⟩

theorem enumerate?_eq {opened : OpenContainer} {d : Disk} {id : ArchiveId}
    {member : ContainerMember} {handle : Nat} {data : ByteArray} {source : Source}
    (hread : member.source? data = some source)
    (hsource : opened.source d id handle = .ok source)
    (hfault : member.file? data ≠ none → source.finalFault = none) :
    opened.enumerate? d id member handle = .ok (ContainerMember.raw? data (member, handle)) := by
  simp only [OpenContainer.enumerate?, hsource, bind, Except.bind, ContainerMember.raw?,
    ContainerMember.file?, hread] at hfault ⊢
  split
  next => rfl
  next hdirectory =>
    rw [if_neg hdirectory] at hfault
    cases hparse : DisplayPath.parse member.name with
    | error fault => rfl
    | ok display =>
        simp only [hparse] at hfault ⊢
        split
        next => rfl
        next hroot =>
          rw [if_neg hroot] at hfault
          rw [hfault (by simp)]
          rfl

/-- A container whose members can all be opened, and those that are files read to their end. -/
theorem loadContainer_eq {reader : ContainerReader} {d : Disk} {path : String} {place : Location}
    {file : FileId} {members : List ContainerMember}
    (hfind : d.find path = .ok (place, .file file))
    (hmembers : reader (d.content file) = some members)
    (hreadable : ∀ member ∈ members, ∃ source, member.source? (d.content file) = some source ∧
      (member.file? (d.content file) ≠ none → source.finalFault = none)) :
    loadContainer reader d path = Archive.build (archiveIdOf path) (.zip reader path)
      (members.zipIdx.filterMap (ContainerMember.raw? (d.content file))) := by
  have hopen : openContainer reader d path = .ok ⟨file, members⟩ := by
    simp only [openContainer, hfind, hmembers]
  have hraws : (members.zipIdx.mapM fun (member, handle) =>
      OpenContainer.enumerate? ⟨file, members⟩ d (archiveIdOf path) member handle) =
      .ok (members.zipIdx.map (ContainerMember.raw? (d.content file))) := by
    apply mapM_eq_ok_map
    rintro ⟨member, handle⟩ hmember
    have hhandle := List.mem_zipIdx_iff_getElem?.mp hmember
    obtain ⟨source, hread, hfault⟩ := hreadable member (List.mem_of_getElem? hhandle)
    apply enumerate?_eq hread _ hfault
    rw [OpenContainer.source_eq hmembers, memberSource_eq hmembers hhandle, hread]
  rw [loadContainer, hopen]
  simp only [bind, Except.bind]
  rw [hraws]
  exact congrArg (Archive.build _ _) List.filterMap_map

theorem Entry.size_of_byteSize {e : Entry} {n : Nat} (h : e.byteSize = n.toUInt64) :
    e.size = n % UInt64.size := by
  rw [size, h]
  exact UInt64.toNat_ofNat

theorem Archive.toNat_totalBytes (a : Archive) :
    a.totalBytes.toNat = (a.entries.map Entry.size).foldr (· + ·) 0 % UInt64.size := by
  rw [totalBytes]
  induction a.entries with
  | nil => rfl
  | cons e entries ih =>
      simp only [List.map_cons, List.foldr_cons, UInt64.toNat_add, ih]
      exact Nat.add_mod_mod _ _ _

/-- An archive that has been loaded gives back what it was loaded from. For each entry there is one
content under a name that means its path, and the checksum is that of the content. If the size of
the content fits in 64 bits it is the recorded one, and as long as the files behind the archive are
what they were, extracting the entry gives the content, verified or not, whatever else is mounted.
The total is the sum of the sizes, around 64 bits. -/
theorem extract_loaded (origin : ArchiveOrigin) {d : Disk} {a : Archive}
    (h : origin.load d = .ok a) :
    ∃ contents : List ByteArray,
      List.Forall₂ (fun e content =>
        (∃ name, origin.Has d name content ∧ Path.parse name = .ok e.path) ∧
        (∀ name other, origin.Has d name other → Path.parse name = .ok e.path → other = content) ∧
        e.checksum = Digest.xxh3 content ∧
        (content.size < UInt64.size → e.size = content.size ∧
          ∀ d', a.Unchanged d d' → ∀ r : Resolved, r.archive = a → r.entry = e → ∀ verify,
            r.extractBytes d' verify false = .ok content)) a.entries contents ∧
      a.totalBytes.toNat = (contents.map ByteArray.size).foldr (· + ·) 0 % UInt64.size := by
  obtain ⟨raws, henumerates⟩ := origin.exists_enumerates h
  obtain ⟨contents, hcontents⟩ := exists_forall₂ fun e he => henumerates.exists_recovers he
  refine ⟨contents, hcontents.imp ?_, ?_⟩
  · rintro e content hrecovers
    refine ⟨hrecovers.has, hrecovers.unique, hrecovers.checksum, ?_⟩
    intro hfits
    have hsize : e.size = content.size := by
      rw [Entry.size_of_byteSize hrecovers.size, Nat.mod_eq_of_lt hfits]
    refine ⟨hsize, ?_⟩
    rintro d' hunchanged r rfl rfl verify
    obtain ⟨source, hsource, hfault, rfl⟩ := hrecovers.source
    rw [← Archive.source_of_unchanged hunchanged] at hsource
    exact r.extractBytes_of_source hsource hfault hsize hrecovers.checksum verify
  · have hsizes : a.entries.map Entry.size =
        contents.map (fun content => content.size % UInt64.size) :=
      map_eq_map_of_forall₂
        (hcontents.imp fun _ _ hrecovers => Entry.size_of_byteSize hrecovers.size)
    have hmods : contents.map (fun content => content.size % UInt64.size) =
        (contents.map ByteArray.size).map (· % UInt64.size) := by
      rw [List.map_map]
      rfl
    rw [a.toNat_totalBytes, hsizes, hmods]
    exact (List.sum_nat_mod _ _).symm

/-- The disk with one file, a container. -/
def Disk.boxed (data : ByteArray) : Disk :=
  { nodes := [(["a.zip"], .file (.regular 0))], contents := [(0, data)] }

theorem Disk.find_boxed (data : ByteArray) :
    (boxed data).find "a.zip" = .ok (["a.zip"], .file (.regular 0)) := by
  refine find_eq_ok_iff.mpr ⟨⟨by decide, by decide, by decide⟩, ?_⟩
  exact .file ⟨by decide, by decide, by decide, by decide⟩ rfl

theorem Disk.seen_boxed (data : ByteArray) : (boxed data).seen "a.zip" = .ok (some data) :=
  seen_of_find (find_boxed data)

/-- The first member is a directory and passed over, so that a handle is not the place in the
list. -/
theorem load_packed : ∃ a, loadZip (.boxed Zip.packed) "a.zip" = .ok a ∧
    a.entries.map (fun e => (e.display, e.handle)) = [(⟨["b"]⟩, 1), (⟨["a"]⟩, 2)] := by
  obtain ⟨directory, hdirectory, hend, -⟩ := Zip.exists_source_packedDirectory
  obtain ⟨y, hy, hyend, -⟩ := Zip.exists_source_packedY
  obtain ⟨x, hx, hxend, -⟩ := Zip.exists_source_packedX
  have hload := loadContainer_eq (Disk.find_boxed Zip.packed) (Zip.reader_eq Zip.parse?_packed) (by
    simp only [List.map_cons, List.map_nil, List.forall_mem_cons]
    exact ⟨⟨directory, hdirectory, fun _ => hend⟩, ⟨y, hy, fun _ => hyend⟩,
      ⟨x, hx, fun _ => hxend⟩, by simp⟩)
  rw [loadZip, hload]
  exact ⟨_, rfl, rfl⟩

theorem extract_loaded_packed : ∃ a,
    (ArchiveOrigin.zip Zip.reader "a.zip").load (.boxed Zip.packed) = .ok a ∧
    a.entries.map (fun e => (e.display, e.handle)) = [(⟨["b"]⟩, 1), (⟨["a"]⟩, 2)] ∧
    List.Forall₂ (fun e content => ∀ r : Resolved, r.archive = a → r.entry = e →
      r.extractBytes (.boxed Zip.packed) true false = .ok content)
      a.entries [⟨#[121]⟩, ⟨#[120]⟩] := by
  obtain ⟨a, ha, hlisted⟩ := load_packed
  refine ⟨a, ha, hlisted, ?_⟩
  obtain ⟨contents, hcontents, -⟩ := extract_loaded (.zip Zip.reader "a.zip") ha
  obtain ⟨first, rest, hentries, hfirst, hrest⟩ := List.map_eq_cons_iff.mp hlisted
  obtain ⟨second, none, rfl, hsecond, hnone⟩ := List.map_eq_cons_iff.mp hrest
  obtain rfl := List.map_eq_nil_iff.mp hnone
  obtain ⟨hfirst, -⟩ := Prod.mk.inj hfirst
  obtain ⟨hsecond, -⟩ := Prod.mk.inj hsecond
  rw [hentries] at hcontents ⊢
  obtain ⟨y, hy, -, hycontent⟩ := Zip.exists_source_packedY
  obtain ⟨x, hx, -, hxcontent⟩ := Zip.exists_source_packedX
  have hmembers := Zip.reader_eq Zip.parse?_packed
  cases hcontents with
  | cons hy' hcontents =>
      cases hcontents with
      | cons hx' hcontents =>
          cases hcontents
          obtain ⟨-, hunique, -, hbytes⟩ := hy'
          obtain ⟨-, hunique', -, hbytes'⟩ := hx'
          obtain rfl := hunique "b" _ ⟨_, _, Zip.packedY.toContainerMember, y, Disk.seen_boxed _,
            hmembers, by simp, rfl, rfl, hy, hycontent⟩ (by rw [first.path_eq, hfirst]; rfl)
          obtain rfl := hunique' "a" _ ⟨_, _, Zip.packedX.toContainerMember, x, Disk.seen_boxed _,
            hmembers, by simp, rfl, rfl, hx, hxcontent⟩ (by rw [second.path_eq, hsecond]; rfl)
          refine .cons (fun r harchive hentry => ?_) (.cons (fun r harchive hentry => ?_) .nil)
          · exact (hbytes (by decide)).2 _ (fun _ _ => rfl) r harchive hentry true
          · exact (hbytes' (by decide)).2 _ (fun _ _ => rfl) r harchive hentry true

end ArchiveOverlay
