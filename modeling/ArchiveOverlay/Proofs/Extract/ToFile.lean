import ArchiveOverlay.Proofs.Disk.Placing
import ArchiveOverlay.Proofs.Extract.Damage
import ArchiveOverlay.Proofs.Extract.Journal

namespace ArchiveOverlay

namespace Disk

/-- The paths of the directories around a file. -/
def parents (path : String) : List String :=
  match HostPath.parent? path with
  | some dir => HostPath.ancestors dir
  | none => []

/-- The disk once the directories around a file have been made, and how that went. -/
def withParents (d : Disk) (path : String) : Disk × Except IoFault Unit :=
  match HostPath.parent? path with
  | some dir => d.makeDirectories dir
  | none => (d, .ok ())

/-- The file that is opened when something is written to a path, if it comes to that, with the
place where the path leads to it. -/
def openedFor (d : Disk) (path : String) : List (Location × FileId) :=
  match Destination.prepare d path with
  | (_, .error _) => []
  | (s, .ok dest) =>
    match s.find path with
    | .error _ => []
    | .ok (place, _) => [(place, dest.file)]

/-- That the file a path names has been opened for writing. -/
structure Opens (d : Disk) (path : String) (s : Disk) (place : Location) (id : FileId) : Prop where
  prepare : Destination.prepare d path = (s, .ok ⟨path, id⟩)
  created : s.Created (d.withParents path).1 place id
  find : s.find path = .ok (place, .file id)

/-- How a file can be written to a path, where `extracted` says what is written and how that
goes. -/
inductive Delivers (d : Disk) (path : String) (extracted : Disk → Except Error Nat × ByteArray) :
    Disk → Except Error Nat → Prop where
  | refused {fault : IoFault} (hopened : d.openedFor path = [])
      (hfault : (d.withParents path).2 = .error fault ∨
        (d.withParents path).1.createFile path = .error fault) :
      Delivers d path extracted (d.withParents path).1 (.error (.io fault))
  | written {s : Disk} {place : Location} {id : FileId} {n : Nat} {content : ByteArray}
      (hs : d.Opens path s place id) (hextracted : extracted s = (.ok n, content)) :
      Delivers d path extracted (s.write id content) (.ok n)
  | left {s : Disk} {place name : Location} {node : Node} {id : FileId} {e : Error}
      {content : ByteArray} (hs : d.Opens path s place id)
      (hextracted : extracted s = (.error e, content))
      (hname : s.locate path false = .ok ⟨name, some node⟩)
      (hrights : d.rights.remove name = false) :
      Delivers d path extracted (s.write id content) (.error e)
  | removed {s : Disk} {place name : Location} {node : Node} {id : FileId} {e : Error}
      {content : ByteArray} (hs : d.Opens path s place id)
      (hextracted : extracted s = (.error e, content))
      (hname : s.locate path false = .ok ⟨name, some node⟩)
      (hrights : d.rights.remove name = true) :
      Delivers d path extracted ((s.write id content).erase name) (.error e)

section

variable {d s : Disk} {path other : String} {place name : Location} {node : Node} {id id' : FileId}
  {content : ByteArray} {extracted : Disk → Except Error Nat × ByteArray}
  {result : Except Error Nat}

theorem withParents_grown (hd : d.Proper) (path : String) : (d.withParents path).1.Grown d := by
  rw [withParents]
  split
  · exact makeDirectoriesFrom_grown hd _
  · exact hd.grown

theorem prepare_eq (d : Disk) (path : String) :
    Destination.prepare d path =
      match d.withParents path with
      | (made, .error fault) => (made, .error fault)
      | (made, .ok ()) =>
        match made.createFile path with
        | .error fault => (made, .error fault)
        | .ok (s, id) => (s, .ok ⟨path, id⟩) := by
  unfold Destination.prepare withParents
  cases HostPath.parent? path with
  | none => rfl
  | some dir => rfl

/-- A file cannot be opened, or it is found then under its path. -/
theorem prepare_cases (hd : d.Proper) (path : String) :
    (∃ fault, Destination.prepare d path = ((d.withParents path).1, .error fault) ∧
      d.openedFor path = [] ∧ ((d.withParents path).2 = .error fault ∨
        (d.withParents path).1.createFile path = .error fault)) ∨
    ∃ s place id, d.Opens path s place id := by
  have hgrown := withParents_grown hd path
  have hprepare := prepare_eq d path
  rw [openedFor]
  rcases hparents : d.withParents path with ⟨made, fault | _⟩
  · rw [hparents] at hprepare
    exact .inl ⟨fault, hprepare, by rw [hprepare], .inl rfl⟩
  · rw [hparents] at hprepare hgrown
    dsimp only at hprepare
    rcases hcreate : made.createFile path with fault | ⟨s, id⟩
    · rw [hcreate] at hprepare
      exact .inl ⟨fault, hprepare, by rw [hprepare], .inr rfl⟩
    · rw [hcreate] at hprepare
      obtain ⟨place, hcreated, hfind, -⟩ := createFile_ok hgrown.proper hcreate
      exact .inr ⟨s, place, id, hprepare, by rwa [hparents], hfind⟩

theorem Opens.openedFor_eq (hs : d.Opens path s place id) : d.openedFor path = [(place, id)] := by
  rw [openedFor, hs.prepare]
  simp only [hs.find]

theorem Opens.exists_name (hs : d.Opens path s place id) :
    ∃ name node, s.locate path false = .ok ⟨name, some node⟩ := by
  obtain ⟨hpath, hreaches⟩ := find_eq_ok_iff.mp hs.find
  obtain ⟨name, node, hunfollowed⟩ := hreaches.unfollowed
  exact ⟨name, node, by rw [locate_eq hpath, hunfollowed.follow_eq]⟩

theorem Opens.name_ne_nil (hs : d.Opens path s place id)
    (hname : s.locate path false = .ok ⟨name, some node⟩) : name ≠ [] := by
  apply ne_nil_of_node? (d := s)
  rw [node?_of_locate hname]
  rcases name_cases hs.find hname with ⟨-, rfl⟩ | ⟨target, rfl⟩
  · simp
  · simp

/-- Whatever is written to a file that has been opened, and however it ends. -/
theorem delivers_finish (hd : d.Proper) (hs : d.Opens path s place id)
    (hextracted : extracted s = (result, content)) :
    d.Delivers path extracted (Destination.finish ⟨path, id⟩ s content result) result := by
  cases result with
  | ok n => exact .written hs hextracted
  | error e =>
      obtain ⟨name, node, hname⟩ := hs.exists_name
      have hkind : node ≠ .directory := by
        rcases name_cases hs.find hname with ⟨-, rfl⟩ | ⟨target, rfl⟩
        · simp
        · simp
      have hrights : (s.write id content).rights = d.rights := by
        rw [rights_write, hs.created.rights, (withParents_grown hd path).rights]
      have hremove :=
        removeFile_of_locate (d := s.write id content) (by rw [locate_write, hname]) hkind
      rw [Destination.finish]
      dsimp only
      rw [hremove, hrights]
      cases hallowed : d.rights.remove name with
      | true => exact .removed hs hextracted hname hallowed
      | false => exact .left hs hextracted hname hallowed

/-- A file stays under its path, with what is in it, when another one is opened for writing. -/
theorem Delivers.holds (h : d.Delivers path extracted s result)
    (hfile : d.Holds other place id' content) (hopened : id' ∉ (d.openedFor path).map Prod.snd) :
    s.Holds other place id' content := by
  have hmade := hfile.grown (withParents_grown hfile.proper path)
  have hne : ∀ {t : Disk} {place : Location} {id : FileId}, d.Opens path t place id →
      id' ≠ id := by
    intro t place id ht
    simpa [ht.openedFor_eq] using hopened
  cases h with
  | refused => exact hmade
  | written hs => exact (hmade.created hs.created (hne hs)).write (hne hs) _
  | left hs => exact (hmade.created hs.created (hne hs)).write (hne hs) _
  | removed hs _ hname =>
      exact ((hmade.created hs.created (hne hs)).write (hne hs) _).erase
        (by rw [find_write, hs.find]) (by rw [locate_write, hname]) (hne hs)

/-- What is in other files stays. -/
theorem Delivers.content_eq (h : d.Delivers path extracted s result) (hd : d.Proper)
    (hopened : id' ∉ (d.openedFor path).map Prod.snd) : s.content id' = d.content id' := by
  have hmade := content_congr (withParents_grown hd path).contents id'
  have hwritten : ∀ {t : Disk} {place : Location} {id : FileId}, d.Opens path t place id →
      ∀ data, (t.write id data).content id' = d.content id' := by
    intro t place id ht data
    have hne : id' ≠ id := by simpa [ht.openedFor_eq] using hopened
    rw [content_write_of_ne _ _ hne, ht.created.content _ hne, hmade]
  cases h with
  | refused => exact hmade
  | written hs => exact hwritten hs _
  | left hs => exact hwritten hs _
  | removed hs => exact hwritten hs _

theorem withParents_added (hd : d.Proper) (path : String) (place : Location) :
    (d.withParents path).1.node? place = d.node? place ∨ d.node? place = none ∧
      ∃ dir ∈ parents path, (d.withParents path).1.find dir = .ok (place, .directory) := by
  cases hdir : HostPath.parent? path with
  | none =>
      rw [withParents, hdir]
      exact .inl rfl
  | some dir =>
      have hslashless :=
        slashless_ancestorsFrom dir.length (HostPath.withoutLastSlashes_parent hdir)
      have houter : (d.makeDirectoriesFrom []).1 = d := rfl
      have hadded := makeDirectoriesFrom_added hd hslashless houter place
      rw [List.append_nil] at hadded
      rw [withParents, parents, hdir]
      exact hadded

/-- Besides the file and the name that its path leads to, only directories around it are new. -/
theorem Delivers.elsewhere (h : d.Delivers path extracted s result) (hd : d.Proper)
    (hplace : place ∉ (d.openedFor path).map Prod.fst)
    (hname : ∀ spot, (d.withParents path).1.locate path false = .ok spot → place ≠ spot.location) :
    s.node? place = d.node? place ∨ d.node? place = none ∧ s.node? place = some .directory ∧
      ∃ dir ∈ parents path, s.find dir = .ok (place, .directory) := by
  -- Once the directories are made, only the file and its name change, and directories stay.
  have hkept : s.node? place = (d.withParents path).1.node? place ∧
      ∀ dir location, (d.withParents path).1.find dir = .ok (location, .directory) →
        s.find dir = .ok (location, .directory) := by
    have hopened : ∀ {t : Disk} {opened : Location} {id : FileId}, d.Opens path t opened id →
        t.node? place = (d.withParents path).1.node? place := by
      intro t opened id ht
      exact ht.created.other place (by simpa [ht.openedFor_eq] using hplace)
    cases h with
    | refused => exact ⟨rfl, fun _ _ hfind => hfind⟩
    | written hs =>
        rw [node?_write, hopened hs]
        exact ⟨rfl, fun dir location hfind => by rw [find_write, hs.created.kept.find hfind]⟩
    | left hs =>
        rw [node?_write, hopened hs]
        exact ⟨rfl, fun dir location hfind => by rw [find_write, hs.created.kept.find hfind]⟩
    | @removed s opened name node id e content hs _ hlocate =>
        rw [node?_erase (hs.name_ne_nil hlocate),
          if_neg (hname _ (locate_of_created hs.created hlocate)), node?_write, hopened hs]
        refine ⟨rfl, fun dir location hfind => ?_⟩
        obtain ⟨-, hfound⟩ := erase_name (d := s.write id content) (hs.created.proper.write _ _)
          (by rw [find_write, hs.find]) (by rw [locate_write, hlocate])
        refine hfound dir location _ ?_ (by rw [find_write, hs.created.kept.find hfind])
        rintro rfl
        have hdirectory := node?_of_find (hs.created.kept.find hfind)
        rw [hs.created.node] at hdirectory
        cases hdirectory
  rw [hkept.1]
  rcases withParents_added hd path place with hsame | ⟨hnone, dir, hdir, hfind⟩
  · exact .inl hsame
  · exact .inr ⟨hnone, node?_of_find hfind, dir, hdir, hkept.2 dir place hfind⟩

theorem Delivers.of_ok {n : Nat} (h : d.Delivers path extracted s (.ok n)) :
    ∃ t place id content, d.Opens path t place id ∧ extracted t = (.ok n, content) ∧
      s = t.write id content := by
  cases h with
  | written hs hextracted => exact ⟨_, _, _, _, hs, hextracted, rfl⟩

/-- What is left of a file that could not be written. -/
theorem Delivers.of_error {e : Error} (h : d.Delivers path extracted s (.error e))
    (hd : d.Proper) :
    (d.openedFor path = [] ∧
      (∃ fault, e = .io fault ∧ ((d.withParents path).2 = .error fault ∨
        (d.withParents path).1.createFile path = .error fault)) ∧
      ∀ found, d.find path = .ok found → s.find path = .ok found) ∨
    ∃ t place id name content, d.Opens path t place id ∧ extracted t = (.error e, content) ∧
      (d.withParents path).1.locate path false = .ok ⟨name, (d.withParents path).1.node? name⟩ ∧
      (name = place ∨ ∃ target, t.node? name = some (.link target)) ∧
      (d.rights.remove name = true → s.node? name = none ∧
        (name = place → ∀ followLast, s.locate path followLast = .ok ⟨place, none⟩)) ∧
      (d.rights.remove name = false ∨ name ≠ place → s.node? place = some (.file id)) ∧
      ∀ other, s.content other = (t.write id content).content other := by
  have hkind : ∀ {t : Disk} {place name : Location} {node : Node} {id : FileId},
      d.Opens path t place id → t.locate path false = .ok ⟨name, some node⟩ →
      name = place ∨ ∃ target, t.node? name = some (.link target) := by
    intro t place name node id ht hname
    rcases name_cases ht.find hname with ⟨hsame, -⟩ | ⟨target, rfl⟩
    · exact .inl hsame
    · exact .inr ⟨target, node?_of_locate hname⟩
  cases h with
  | @refused fault hopened hfault =>
      refine .inl ⟨hopened, ⟨fault, rfl, hfault⟩, fun found hfind => ?_⟩
      exact (withParents_grown hd path).kept.find hfind
  | @left t place name node id e content hs hextracted hname hrights =>
      refine .inr ⟨t, place, id, name, content, hs, hextracted, locate_of_created hs.created hname,
        hkind hs hname, ?_, ?_, fun _ => rfl⟩
      · simp [hrights]
      · intro _
        rw [node?_write, hs.created.node]
  | @removed t place name node id e content hs hextracted hname hrights =>
      have hne := hs.name_ne_nil hname
      refine .inr ⟨t, place, id, name, content, hs, hextracted, locate_of_created hs.created hname,
        hkind hs hname, ?_, ?_, fun _ => rfl⟩
      · refine fun _ => ⟨by rw [node?_erase hne, if_pos rfl], ?_⟩
        rintro rfl followLast
        have hlocate : (t.write id content).locate path followLast =
            .ok ⟨name, some (.file id)⟩ := by
          rw [locate_write]
          cases followLast with
          | true => exact locate_of_find hs.find
          | false =>
              have hnode := (node?_of_locate hname).symm.trans hs.created.node
              rw [hname, hnode]
        exact locate_erased hlocate
      · rintro (hrefused | hother)
        · simp [hrights] at hrefused
        · rw [node?_erase hne, if_neg (Ne.symm hother), node?_write, hs.created.node]

/-- What is seen under a path was seen before a file was opened, if the path does not lead to the
file. -/
theorem Created.seen_eq (hs : s.Created d place id) {seen : Option ByteArray}
    (h : s.seen other = .ok seen)
    (hother : ∀ spot, d.locate other true = .ok spot →
      spot.location ≠ place ∧ spot.node? ≠ some (.file id)) : d.seen other = .ok seen := by
  rw [Disk.seen] at h ⊢
  rcases hfind : s.find other with fault | ⟨location, node⟩
  · rw [hfind] at h
    cases h
  · have hlocate := locate_of_created hs (locate_of_find hfind)
    obtain ⟨hne, hfile⟩ := hother _ hlocate
    have hnode : d.node? location = some node := by
      rw [← hs.other _ hne, node?_of_find hfind]
    rw [hnode] at hlocate hfile
    have hpath := admissible_of_locate hlocate
    rw [locate_eq hpath] at hlocate
    rw [hfind] at h
    rw [find_eq_ok_iff.mpr ⟨hpath, reaches_of_follow hlocate⟩, ← h]
    cases node with
    | file found =>
        have hcontent := hs.content found (by rintro rfl; exact hfile rfl)
        simp [Except.map, nodeContent?, hcontent]
    | directory => rfl
    | link target => rfl

theorem Grown.seen_eq (hs : s.Grown d) (h : ∃ found, d.find path = .ok found) :
    s.seen path = d.seen path := by
  obtain ⟨⟨place, node⟩, hfind⟩ := h
  rw [seen, seen, hfind, hs.kept.find hfind]
  cases node with
  | file id => simp [Except.map, nodeContent?, content_congr hs.contents id]
  | directory => rfl
  | link target => rfl

end

end Disk

theorem Backing.seen_of_sourceSeen {b : Backing} {id : ArchiveId}
    {seen : String → Except IoFault (Option ByteArray)} {handle : Nat} {source : Source}
    (h : b.sourceSeen id seen handle = .ok source) {path : String}
    (hpath : b.pathAt handle = some path) : ∃ found, seen path = .ok found := by
  cases b with
  | directory root files =>
      obtain ⟨file, hfile, rfl⟩ := Option.map_eq_some_iff.mp hpath
      rw [sourceSeen, hfile] at h
      rcases hseen : seen (HostPath.join root file) with fault | found
      · simp [hseen] at h
      · exact ⟨found, rfl⟩
  | zip reader container =>
      obtain rfl := Option.some.inj hpath
      rw [sourceSeen] at h
      rcases hseen : seen container with fault | found
      · simp [hseen] at h
      · exact ⟨found, rfl⟩
  | memory contents => cases hpath

theorem Archive.source_of_seen {a : Archive} {d d' : Disk} {handle : Nat} {source : Source}
    (h : a.source d handle = .ok source)
    (hseen : ∀ path ∈ a.backing.paths, ∀ found, d.seen path = .ok found →
      d'.seen path = .ok found) :
    a.source d' handle = .ok source := by
  rw [a.source_eq] at h ⊢
  rw [← h]
  apply Backing.sourceSeen_congr
  intro path hpath
  obtain ⟨found, hfound⟩ := Backing.seen_of_sourceSeen h hpath
  rw [hfound, hseen path (Backing.pathAt_mem_paths hpath) found hfound]

namespace Resolved

variable {σ : Type} {r : Resolved} {d d' : Disk} {path : String} {verify : Bool} {sink : Sink σ}
  {state : σ}

theorem delivers_extractToFileBy (r : Resolved) (hd : d.Proper) (verify : Bool) (sink : Sink σ)
    (state : σ) (path : String) :
    d.Delivers path
      (fun s => ((r.extract s verify sink state).1, (r.extract s verify sink state).2.accepted))
      (r.extractToFileBy d verify sink state path).1
      (r.extractToFileBy d verify sink state path).2 := by
  rw [extractToFileBy]
  rcases Disk.prepare_cases hd path with
    ⟨fault, hprepare, hopened, hfault⟩ | ⟨s, place, id, hs⟩
  · rw [hprepare]
    exact .refused hopened hfault
  · rw [hs.prepare]
    exact Disk.delivers_finish hd hs rfl

/-- What is extracted into a sink is the whole content, and it would be the same with any other
sink that takes it. -/
theorem extractBytes_of_extract {n : Nat} {o : Outlet σ}
    (h : r.extract d verify sink state = (.ok n, o)) :
    n = r.entry.size ∧ o.accepted.size = n ∧ r.extractBytes d verify false = .ok o.accepted := by
  rw [extract] at h
  cases hsource : r.archive.source d r.entry.handle with
  | error e =>
      rw [hsource] at h
      cases h
  | ok source =>
      rw [hsource, deliver] at h
      obtain ⟨result, final, events, hstreams, -, hstream⟩ :=
        r.stream_journaled verify source sink state
      rw [h] at hstream
      cases hstream
      obtain ⟨hn, hsize, hcontent, -⟩ := hstreams.of_ok
      obtain ⟨hfault, hcheck⟩ := hstreams.sound
      have haccepted : ((Outlet.start (state, [])).after final events).bare.accepted =
          source.content := by
        rw [← hcontent]
        exact ByteArray.empty_append
      rw [haccepted]
      refine ⟨hn, by rw [← hcontent, hsize], ?_⟩
      rw [extractBytes_ended hsource (by rw [← hcontent, hsize, hn]) hfault, hcheck]
      rfl

theorem extract_of_seen {n : Nat} {o : Outlet σ} (h : r.extract d verify sink state = (.ok n, o))
    (hseen : ∀ path ∈ r.archive.backing.paths, ∀ found,
      d.seen path = .ok found → d'.seen path = .ok found) :
    r.extract d' verify sink state = (.ok n, o) := by
  rw [extract] at h ⊢
  cases hsource : r.archive.source d r.entry.handle with
  | error e =>
      rw [hsource] at h
      cases h
  | ok source =>
      rw [hsource] at h
      rwa [Archive.source_of_seen hsource hseen]

end Resolved

/-- What becomes of the disk when a file is extracted to a path. After a failure the name that the
path leads to is taken away, if it may be, and this need not be the name of the file that was
opened. -/
theorem extract_to_file_outcome {σ : Type} (r : Resolved) {d : Disk} (hd : d.Proper)
    (verify : Bool) (sink : Sink σ) (state : σ) (path : String) :
    let made := (d.withParents path).1
    let outcome := r.extractToFileBy d verify sink state path
    (∀ n, outcome.2 = .ok n → n = r.entry.size ∧ ∃ place id, d.openedFor path = [(place, id)] ∧
      outcome.1.find path = .ok (place, .file id) ∧
      (id ≠ .null → (outcome.1.content id).size = n ∧
        ((∀ file ∈ r.archive.backing.paths, ∀ spot, made.locate file true = .ok spot →
            spot.location ≠ place ∧ spot.node? ≠ some (.file id)) →
          r.extractBytes made verify false = .ok (outcome.1.content id) ∧
          ((∀ file ∈ r.archive.backing.paths, ∃ found, d.find file = .ok found) →
            r.extractBytes d verify false = .ok (outcome.1.content id))))) ∧
    (∀ e, outcome.2 = .error e →
      (d.openedFor path = [] ∧
        (∃ fault, e = .io fault ∧
          ((d.withParents path).2 = .error fault ∨ made.createFile path = .error fault)) ∧
        ∀ found, d.find path = .ok found → outcome.1.find path = .ok found) ∨
      ∃ place id name, d.openedFor path = [(place, id)] ∧
        made.locate path false = .ok ⟨name, made.node? name⟩ ∧
        (name = place ∨ ∃ target, made.node? name = some (.link target)) ∧
        (d.rights.remove name = true → outcome.1.node? name = none ∧
          (name = place → ∀ followLast, outcome.1.locate path followLast = .ok ⟨place, none⟩)) ∧
        (d.rights.remove name = false ∨ name ≠ place → outcome.1.node? place = some (.file id)) ∧
        (id ≠ .null → outcome.1.content id =
          (r.extract (Destination.prepare d path).1 verify sink state).2.accepted)) ∧
    (∀ place, place ∉ (d.openedFor path).map Prod.fst →
      (∀ spot, made.locate path false = .ok spot → place ≠ spot.location) →
      outcome.1.node? place = d.node? place ∨
        d.node? place = none ∧ outcome.1.node? place = some .directory ∧
          ∃ dir ∈ Disk.parents path, outcome.1.find dir = .ok (place, .directory)) ∧
    ∀ id, id ∉ (d.openedFor path).map Prod.snd → outcome.1.content id = d.content id := by
  have hdelivers := r.delivers_extractToFileBy hd verify sink state path
  refine ⟨fun n hn => ?_, fun e he => ?_,
    fun place hplace hname => hdelivers.elsewhere hd hplace hname,
    fun id hid => hdelivers.content_eq hd hid⟩
  · rw [hn] at hdelivers
    obtain ⟨t, place, id, content, ht, hextracted, hs⟩ := hdelivers.of_ok
    rcases hextract : r.extract t verify sink state with ⟨result, o⟩
    rw [hextract] at hextracted
    cases hextracted
    obtain ⟨hsize, haccepted, -⟩ := Resolved.extractBytes_of_extract hextract
    rw [hs]
    refine ⟨hsize, place, id, ht.openedFor_eq, by rw [Disk.find_write, ht.find], fun hnull => ?_⟩
    rw [Disk.content_write _ _ hnull]
    refine ⟨haccepted, fun hother => ?_⟩
    have hmade := Resolved.extract_of_seen hextract fun file hfile found hseen =>
      ht.created.seen_eq hseen (hother file hfile)
    refine ⟨(Resolved.extractBytes_of_extract hmade).2.2, fun hfound => ?_⟩
    refine (Resolved.extractBytes_of_extract (Resolved.extract_of_seen hmade ?_)).2.2
    intro file hfile found hseen
    rw [← hseen, (Disk.withParents_grown hd path).seen_eq (hfound file hfile)]
  · rw [he] at hdelivers
    refine (hdelivers.of_error hd).imp_right ?_
    rintro ⟨t, place, id, name, content, ht, hextracted, hname, hkind, hremoved, hleft, hcontent⟩
    refine ⟨place, id, name, ht.openedFor_eq, hname, ?_, hremoved, hleft, fun hnull => ?_⟩
    · by_cases hsame : name = place
      · exact .inl hsame
      · rw [← ht.created.other name hsame]
        exact hkind
    · rw [hcontent, Disk.content_write _ _ hnull, ht.prepare]
      exact (Prod.mk.inj hextracted).2.symm

namespace Disk

/-- A disk with a file and a link to it. -/
def linked (content : ByteArray) : Disk where
  nodes := [(["t.txt"], .file (.regular 0)), (["lnk"], .link "t.txt")]
  contents := [(0, content)]

theorem proper_linked (content : ByteArray) : (linked content).Proper :=
  proper_of_places (List.forall_mem_cons.mpr ⟨rfl, List.forall_mem_singleton.mpr rfl⟩) rfl

/-- The same disk with a directory beside. -/
def linkedBeside (content : ByteArray) : Disk :=
  (linked content).put ["out"] .directory

theorem nameable_lnk : Nameable "lnk" :=
  ⟨by decide, by decide, by decide, by decide⟩

theorem nameable_out : Nameable "out" :=
  ⟨by decide, by decide, by decide, by decide⟩

theorem locate_linked (content : ByteArray) :
    (linked content).locate "out/../lnk" false = .error .notFound := by
  have hpieces : pathPieces "out/../lnk" = ["out", "..", "lnk"] := rfl
  rw [locate_eq ⟨by decide, by decide, by decide⟩, hpieces, follow_name nameable_out]
  rfl

theorem withParents_linked (content : ByteArray) :
    (linked content).withParents "out/../lnk" = (linkedBeside content, .ok ()) := by
  have hmissing : (linked content).makeDirectory "out/.." = .error .notFound := by
    have hslashes : withoutLastSlashes "out/.." = "out/.." := rfl
    have hpieces : pathPieces "out/.." = ["out", ".."] := rfl
    rw [makeDirectory, hslashes, locate_eq ⟨by decide, by decide, by decide⟩, hpieces,
      follow_name nameable_out]
    rfl
  have hout : (linked content).makeDirectory "out" = .ok (linkedBeside content) := by
    have hslashes : withoutLastSlashes "out" = "out" := rfl
    have hpieces : pathPieces "out" = ["out"] := rfl
    rw [makeDirectory, hslashes, locate_eq ⟨by decide, by decide, by decide⟩, hpieces,
      follow_name nameable_out]
    rfl
  have hfind : (linkedBeside content).find "out/.." = .ok ([], .directory) :=
    find_eq_ok_iff.mpr ⟨⟨by decide, by decide, by decide⟩,
      .directory nameable_out rfl (.up (.here rfl))⟩
  have hparent : HostPath.parent? "out/../lnk" = some "out/.." := rfl
  have hancestors : HostPath.ancestors "out/.." = ["out/..", "out", ""] := rfl
  have hmade : (linked content).makeDirectoriesFrom ["out", ""] =
      (linkedBeside content, .ok ()) := by
    rw [makeDirectoriesFrom, if_neg (by decide), hout]
  rw [withParents, hparent]
  dsimp only
  rw [makeDirectories, hancestors, makeDirectoriesFrom, if_neg (by decide), hmissing]
  simp only [hmade, makeDirectory_of_find hfind, isDirectory_of_find hfind, if_true]

theorem locate_linkedBeside (content : ByteArray) :
    (linkedBeside content).locate "out/../lnk" true = .ok ⟨["t.txt"], some (.file (.regular 0))⟩ ∧
      (linkedBeside content).locate "out/../lnk" false = .ok ⟨["lnk"], some (.link "t.txt")⟩ := by
  have ht : Nameable "t.txt" := ⟨by decide, by decide, by decide, by decide⟩
  have hfollowed : Reaches (linkedBeside content) true maxLinks [] ["out", "..", "lnk"] ["t.txt"]
      (.file (.regular 0)) :=
    .directory nameable_out rfl (.up (.through (fun _ => rfl) nameable_lnk rfl (.file ht rfl)))
  have hunfollowed : Reaches (linkedBeside content) false maxLinks [] ["out", "..", "lnk"] ["lnk"]
      (.link "t.txt") :=
    .directory nameable_out rfl (.up (.link rfl nameable_lnk rfl))
  constructor
  · rw [locate_eq ⟨by decide, by decide, by decide⟩]
    exact hfollowed.follow_eq
  · rw [locate_eq ⟨by decide, by decide, by decide⟩]
    exact hunfollowed.follow_eq

theorem openedFor_linked (content : ByteArray) :
    (linked content).openedFor "out/../lnk" = [(["t.txt"], .regular 0)] := by
  have hlocate := (locate_linkedBeside content).1
  have hcreate : (linkedBeside content).createFile "out/../lnk" =
      .ok ((linkedBeside content).write (.regular 0) .empty, .regular 0) := by
    have hslashes : withoutLastSlashes "out/../lnk" = "out/../lnk" := rfl
    rw [createFile, hslashes, hlocate]
    rfl
  have hfind := find_of_locate_file hlocate
  rw [openedFor, prepare_eq, withParents_linked]
  simp only [hcreate, find_write, hfind]

end Disk

/-- A path that led nowhere can become a link while the directories around it are made. When
extraction fails then, the link is gone, and the file that it stood for is left empty. -/
theorem extract_through_new_link : ∃ a r,
    Archive.ofMemory ⟨"a.zip"⟩ [.faithful "x" ⟨#[121]⟩] = .ok a ∧
    (⟨[a]⟩ : Overlay).resolve "x" = .ok r ∧
    let d : Disk := .linked ⟨#[107, 101, 101, 112]⟩
    let outcome := r.extractToFile d true true "out/../lnk"
    d.Proper ∧ d.locate "out/../lnk" false = .error .notFound ∧ r.archive.backing.paths = [] ∧
      d.content? ["t.txt"] = some ⟨#[107, 101, 101, 112]⟩ ∧
      outcome.2 = .error .cancelled ∧ outcome.1.content? ["t.txt"] = some .empty := by
  have hload : ∃ a, Archive.ofMemory ⟨"a.zip"⟩ [.faithful "x" ⟨#[121]⟩] = .ok a ∧
      ∃ r, (⟨[a]⟩ : Overlay).resolve "x" = .ok r ∧ r.archive.backing = .memory [⟨#[121]⟩] ∧
        r.entry.handle = 0 :=
    ⟨_, rfl, _, rfl, rfl, rfl⟩
  obtain ⟨a, ha, r, hresolve, hbacking, hhandle⟩ := hload
  have hextract : ∀ d, r.extract d true (.unlimited true) () = (.error .cancelled, .start ()) := by
    intro d
    rw [Resolved.extract, Archive.source, hbacking, hhandle]
    exact r.stream_cancelled true _
  have hproper := Disk.proper_linked ⟨#[107, 101, 101, 112]⟩
  have hopened := Disk.openedFor_linked ⟨#[107, 101, 101, 112]⟩
  have hresult : (r.extractToFile (.linked ⟨#[107, 101, 101, 112]⟩) true true "out/../lnk").2 =
      .error .cancelled := by
    rcases Disk.prepare_cases hproper "out/../lnk" with ⟨_, _, hnone, _⟩ | ⟨s, place, id, hs⟩
    · rw [hopened] at hnone
      cases hnone
    · rw [Resolved.extractToFile, Resolved.extractToFileBy, hs.prepare]
      simp only [hextract]
  obtain ⟨-, herror, -⟩ := extract_to_file_outcome r hproper true (.unlimited true) () "out/../lnk"
  refine ⟨a, r, ha, hresolve, hproper, Disk.locate_linked _, by rw [hbacking]; rfl,
    rfl, hresult, ?_⟩
  rcases herror _ hresult with ⟨hnone, -⟩ | ⟨place, id, name, hplace, hname, -, -, hleft, hcontent⟩
  · rw [hopened] at hnone
    cases hnone
  · rw [hopened] at hplace
    cases hplace
    rw [Disk.withParents_linked] at hname
    have hlink := (Disk.locate_linkedBeside ⟨#[107, 101, 101, 112]⟩).2
    have hne : name ≠ ["t.txt"] := by
      rintro rfl
      rw [hlink] at hname
      simp at hname
    refine Disk.content?_eq_some_iff.mpr ⟨.regular 0, hleft (.inr hne), ?_⟩
    rw [Resolved.extractToFile, hcontent (by simp), hextract]
    rfl

end ArchiveOverlay
