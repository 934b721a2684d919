import ArchiveOverlay.Extract
import ArchiveOverlay.Proofs.Disk.Locating
import ArchiveOverlay.Proofs.Disk.Nodes

/-!
Making directories and files below a directory that is there. Where nothing but directories is in
the way, all that is missing is made and nothing else changes; a file in the way stops it at once.
-/

namespace ArchiveOverlay.Disk

open HostPath (join trimmed EndsInName)

/-- Names that can be put behind a path. -/
structure Fits (destination : String) (names : List String) : Prop where
  ordinary : ∀ name ∈ names, Ordinary name
  name : ∀ name ∈ names, name.utf8ByteSize ≤ maxNameSize
  path : (names.foldl join destination).utf8ByteSize < pathLimit

namespace Fits

variable {destination : String} {names : List String}

theorem nameable (h : Fits destination names) : ∀ name ∈ names, Nameable name := by
  intro name hname
  have hordinary := h.ordinary name hname
  exact ⟨hordinary.ne_empty, hordinary.ne_dot, hordinary.ne_dots, h.name name hname⟩

theorem of_append {more : List String} (h : Fits destination (names ++ more)) :
    Fits destination names where
  ordinary := fun name hname => h.ordinary name (by simp [hname])
  name := fun name hname => h.name name (by simp [hname])
  path := by
    have hmore : ∀ name ∈ more, Ordinary name :=
      fun name hname => h.ordinary name (by simp [hname])
    have hpath := h.path
    rw [List.foldl_append] at hpath
    exact (utf8ByteSize_le_of_begins (HostPath.prefix_foldl_join hmore _).1).trans_lt hpath

theorem admissible (h : Fits destination names) (hdestination : Admissible destination) :
    Admissible (names.foldl join destination) where
  plain := by
    have hordinary := h.ordinary
    have hplain := hdestination.plain
    clear h hdestination
    induction names generalizing destination with
    | nil => exact hplain
    | cons name names ih =>
        have hname : '\x00' ∉ name.toList := fun hmem =>
          ((hordinary name (by simp)).plain _ hmem).2 rfl
        exact ih (fun other hother => hordinary other (by simp [hother]))
          (HostPath.not_mem_join (by decide) hplain hname)
  ne_empty := by
    intro hempty
    have hbegins := (HostPath.prefix_foldl_join h.ordinary destination).1
    rw [hempty] at hbegins
    exact hdestination.ne_empty (String.toList_eq_nil_iff.mp (List.prefix_nil.mp hbegins))
  fits := h.path

theorem endsInName (h : Fits destination names) (hne : names ≠ []) :
    EndsInName (names.foldl join destination) :=
  EndsInName.foldl_join hne h.ordinary

end Fits

/-- That all the names lead through directories. -/
def Passable (d : Disk) (place : Location) (names : List String) : Prop :=
  ∀ front, front ≠ [] → front <+: names → d.node? (place ++ front) = some .directory

/-- That nothing but directories is on the way, and what is missing may be added. -/
def Free (d : Disk) (place : Location) (names : List String) : Prop :=
  ∀ front, front ≠ [] → front <+: names →
    (d.node? (place ++ front) = none ∧ d.rights.add (place ++ front) = true) ∨
      d.node? (place ++ front) = some .directory

section

variable {d : Disk} {destination : String} {place : Location} {names : List String} {name : String}

/-- A path with names behind it is followed from where the path alone leads. -/
theorem exists_locate_eq (h : d.find destination = .ok (place, .directory))
    (hordinary : ∀ name ∈ names, Ordinary name) (hpath : Admissible (names.foldl join destination))
    (hne : names ≠ []) :
    ∃ links, ∀ followLast,
      d.locate (names.foldl join destination) followLast =
        d.follow followLast links place names := by
  obtain ⟨hdestination, hreaches⟩ := find_eq_ok_iff.mp h
  have hstart : d.start (names.foldl join destination) = d.start destination := by
    rw [start, start, (HostPath.components_foldl_join hordinary destination).2]
  obtain ⟨front, hpieces, hfront⟩ :=
    HostPath.pathPieces_foldl_join hdestination.ne_empty hne hordinary
  have hreached : Reaches d true maxLinks (d.start destination) front place .directory := by
    rcases hfront with hfront | hfront
    · rwa [hfront] at hreaches
    · rw [hfront] at hreaches
      exact hreaches.of_append_still (by simp [HostPath.Still])
  obtain ⟨links, hlinks⟩ := hreached.follow_append
  refine ⟨links, fun followLast => ?_⟩
  rw [locate_eq hpath, hstart, hpieces, hlinks followLast names hne]

theorem Fits.exists_locate_eq (hfits : Fits destination names)
    (h : d.find destination = .ok (place, .directory)) (hne : names ≠ []) :
    ∃ links, ∀ followLast,
      d.locate (names.foldl join destination) followLast = d.follow followLast links place names :=
  Disk.exists_locate_eq h hfits.ordinary (hfits.admissible (find_eq_ok_iff.mp h).1) hne

theorem follow_below {followLast : Bool} {links : Nat}
    (hnames : ∀ other ∈ names ++ [name], Nameable other) (hway : d.Passable place names)
    (hlink : ∀ target, d.node? (place ++ (names ++ [name])) ≠ some (.link target)) :
    d.follow followLast links place (names ++ [name]) =
      .ok ⟨place ++ (names ++ [name]), d.node? (place ++ (names ++ [name]))⟩ := by
  rw [follow_directories (fun other hother => hnames other (by simp [hother])) hway,
    follow_name (hnames name (by simp)), List.append_assoc]
  cases hnode : d.node? (place ++ (names ++ [name])) with
  | none => rfl
  | some node =>
      cases node with
      | file id => rfl
      | directory => rw [follow, hnode]
      | link target => exact absurd hnode (hlink target)

theorem locate_below (h : d.find destination = .ok (place, .directory))
    (hfits : Fits destination (names ++ [name])) (hway : d.Passable place names)
    (hlink : ∀ target, d.node? (place ++ (names ++ [name])) ≠ some (.link target))
    (followLast : Bool) :
    d.locate ((names ++ [name]).foldl join destination) followLast =
      .ok ⟨place ++ (names ++ [name]), d.node? (place ++ (names ++ [name]))⟩ := by
  obtain ⟨links, hlocate⟩ := hfits.exists_locate_eq h (by simp)
  rw [hlocate, follow_below hfits.nameable hway hlink]

theorem find_below {node : Node} (h : d.find destination = .ok (place, .directory))
    (hfits : Fits destination (names ++ [name])) (hway : d.Passable place names)
    (hnode : d.node? (place ++ (names ++ [name])) = some node)
    (hlink : ∀ target, node ≠ .link target) :
    d.find ((names ++ [name]).foldl join destination) =
      .ok (place ++ (names ++ [name]), node) := by
  have hlocate :=
    locate_below h hfits hway (fun target heq => hlink target (by simpa [hnode] using heq)) true
  rw [find, hlocate, hnode]

theorem locate_missing (h : d.find destination = .ok (place, .directory))
    (hfits : Fits destination (names ++ [name])) (hway : ¬ d.Passable place names)
    (hfree : d.Free place names) (followLast : Bool) :
    d.locate ((names ++ [name]).foldl join destination) followLast = .error .notFound := by
  obtain ⟨links, hlocate⟩ := hfits.exists_locate_eq h (by simp)
  have hnames := hfits.nameable
  rw [hlocate]
  clear hlocate hfits h
  -- The place goes on with each directory that is there, until a name is missing.
  induction names generalizing place with
  | nil =>
      refine absurd ?_ hway
      intro front hne hbegins
      exact absurd (List.prefix_nil.mp hbegins) hne
  | cons first names ih =>
      rw [List.cons_append, follow_name (hnames first (by simp))]
      rcases hfree [first] (by simp) (by simp [List.cons_prefix_cons]) with ⟨hnode, -⟩ | hnode
      · rw [hnode]
        simp
      · rw [hnode]
        refine ih ?_ ?_ fun other hother => hnames other (List.mem_cons_of_mem _ hother)
        · intro hrest
          refine hway ?_
          intro front hne hbegins
          cases front with
          | nil => exact absurd rfl hne
          | cons key front =>
              obtain ⟨rfl, hmore⟩ := List.cons_prefix_cons.mp hbegins
              by_cases hnil : front = []
              · rw [hnil]
                exact hnode
              · have hlonger := hrest front hnil hmore
                rwa [List.append_assoc] at hlonger
        · intro front hne hbegins
          have hlonger :=
            hfree (first :: front) (by simp) (List.cons_prefix_cons.mpr ⟨rfl, hbegins⟩)
          rwa [List.append_assoc]

theorem locate_blocked {rest : List String} {id : FileId}
    (h : d.find destination = .ok (place, .directory))
    (hfits : Fits destination (names ++ name :: rest)) (hway : d.Passable place names)
    (hnode : d.node? (place ++ (names ++ [name])) = some (.file id)) (followLast : Bool) :
    d.locate ((names ++ name :: rest).foldl join destination) followLast =
      if rest.isEmpty then .ok ⟨place ++ (names ++ [name]), some (.file id)⟩
      else .error .notADirectory := by
  obtain ⟨links, hlocate⟩ := hfits.exists_locate_eq h (by simp)
  have hnames := hfits.nameable
  rw [hlocate, follow_directories (fun other hother => hnames other (by simp [hother])) hway,
    follow_name (hnames name (by simp)), List.append_assoc, hnode]

/-- What making directories along some names does to a disk. -/
structure Opened (d s : Disk) (place : Location) (names : List String) : Prop where
  workingDirectory : s.workingDirectory = d.workingDirectory
  contents : s.contents = d.contents
  rights : s.rights = d.rights
  passable : s.Passable place names
  other : ∀ location, (∀ front, front ≠ [] → front <+: names → location ≠ place ++ front) →
    s.node? location = d.node? location

theorem Opened.extends {s : Disk} (h : d.Opened s place names) (hfree : d.Free place names) :
    s.Extends d where
  workingDirectory := h.workingDirectory
  node := by
    intro location node hnode
    by_cases hmade : ∃ front, front ≠ [] ∧ front <+: names ∧ location = place ++ front
    · obtain ⟨front, hne, hbegins, rfl⟩ := hmade
      rw [h.passable front hne hbegins]
      rcases hfree front hne hbegins with ⟨hnone, -⟩ | hdirectory
      · simp [hnone] at hnode
      · rw [← hnode, hdirectory]
    · rw [h.other location fun front hne hbegins heq => hmade ⟨front, hne, hbegins, heq⟩, hnode]

theorem Passable.concat (h : d.Passable place names)
    (hlast : d.node? (place ++ (names ++ [name])) = some .directory) :
    d.Passable place (names ++ [name]) := by
  intro front hne hbegins
  rcases List.prefix_concat_iff.mp hbegins with rfl | hbegins
  · exact hlast
  · exact h front hne hbegins

theorem makeDirectory_exists {path : String} {location : Location} {node : Node}
    (h : d.locate (withoutLastSlashes path) false = .ok ⟨location, some node⟩) :
    d.makeDirectory path = .error .alreadyExists := by
  rw [makeDirectory, h]

theorem opened_put (hway : d.Passable place names) :
    d.Opened (d.put (place ++ (names ++ [name])) .directory) place (names ++ [name]) where
  workingDirectory := rfl
  contents := rfl
  rights := rfl
  passable := by
    apply Passable.concat
    · intro front hne hbegins
      rw [node?_put (by simp)]
      split
      · rfl
      · exact hway front hne hbegins
    · rw [node?_put (by simp), if_pos rfl]
  other := by
    intro location hother
    rw [node?_put (by simp), if_neg (hother _ (by simp) (List.prefix_refl _))]

/-- One more directory inside of directories: it is made, or it was there. -/
theorem makeDirectory_below (h : d.find destination = .ok (place, .directory))
    (hfits : Fits destination (names ++ [name])) (hway : d.Passable place names)
    (hlast : (d.node? (place ++ (names ++ [name])) = none ∧
        d.rights.add (place ++ (names ++ [name])) = true) ∨
      d.node? (place ++ (names ++ [name])) = some .directory) :
    (∃ s, d.makeDirectory ((names ++ [name]).foldl join destination) = .ok s ∧
      d.Opened s place (names ++ [name])) ∨
    (d.makeDirectory ((names ++ [name]).foldl join destination) = .error .alreadyExists ∧
      d.isDirectory ((names ++ [name]).foldl join destination) = true ∧
      d.Opened d place (names ++ [name])) := by
  have hends := hfits.endsInName (by simp)
  rcases hlast with ⟨hnone, hadd⟩ | hdirectory
  · refine .inl ⟨_, ?_, opened_put hway⟩
    rw [makeDirectory, withoutLastSlashes_eq hends, locate_below h hfits hway (by simp [hnone]),
      hnone]
    exact if_pos hadd
  · have hlocate := locate_below h hfits hway (by simp [hdirectory]) false
    rw [hdirectory] at hlocate
    refine .inr ⟨?_, ?_, rfl, rfl, rfl, hway.concat hdirectory, fun _ _ => rfl⟩
    · exact makeDirectory_exists (by rwa [withoutLastSlashes_eq hends])
    · exact isDirectory_of_find (find_below h hfits hway hdirectory (by simp))

theorem Opened.last {s : Disk} (h : d.Opened s place names) :
    s.node? (place ++ (names ++ [name])) = d.node? (place ++ (names ++ [name])) := by
  apply h.other
  intro front _ hbegins heq
  have hlength := hbegins.length_le
  rw [← List.append_cancel_left heq] at hlength
  simp at hlength

theorem Opened.trans {s t : Disk} (h : d.Opened s place names)
    (ht : s.Opened t place (names ++ [name])) : d.Opened t place (names ++ [name]) where
  workingDirectory := ht.workingDirectory.trans h.workingDirectory
  contents := ht.contents.trans h.contents
  rights := ht.rights.trans h.rights
  passable := ht.passable
  other := by
    intro location hother
    rw [ht.other location hother, h.other location]
    intro front hne hbegins
    exact hother front hne (hbegins.trans (List.prefix_append _ _))

theorem makeDirectory_files {s : Disk} {path : String} (h : d.makeDirectory path = .ok s) :
    s.contents = d.contents ∧ s.rights = d.rights := by
  unfold makeDirectory at h
  split at h
  · cases h
  · cases h
  · split at h
    · cases h
      exact ⟨rfl, rfl⟩
    · cases h

/-- Directories are made without touching files. -/
theorem makeDirectoriesFrom_files (d : Disk) (paths : List String) :
    (d.makeDirectoriesFrom paths).1.contents = d.contents ∧
      (d.makeDirectoriesFrom paths).1.rights = d.rights := by
  induction paths with
  | nil => exact ⟨rfl, rfl⟩
  | cons path outer ih =>
      rw [makeDirectoriesFrom]
      split
      · exact ⟨rfl, rfl⟩
      · split
        next made hmade => exact makeDirectory_files hmade
        · split
          next houter =>
            rw [houter] at ih
            exact ih
          next s houter =>
            rw [houter] at ih
            split
            next made hmade =>
              obtain ⟨hcontents, hrights⟩ := makeDirectory_files hmade
              exact ⟨hcontents.trans ih.1, hrights.trans ih.2⟩
            · split <;> exact ih
        · split <;> exact ⟨rfl, rfl⟩

/-- A directory that is there is left alone. -/
theorem makeDirectory_of_find {path : String} (h : d.find path = .ok (place, .directory)) :
    d.makeDirectory path = .error .alreadyExists := by
  obtain ⟨hpath, hreaches⟩ := find_eq_ok_iff.mp (find_withoutLastSlashes h)
  obtain ⟨location, node, hunfollowed⟩ := hreaches.unfollowed
  have hlocate : d.locate (withoutLastSlashes path) false = .ok ⟨location, some node⟩ := by
    rw [locate_eq hpath, hunfollowed.follow_eq]
  exact makeDirectory_exists hlocate

theorem makeDirectoriesFrom_of_find {path : String} {outer : List String}
    (h : d.find path = .ok (place, .directory)) :
    d.makeDirectoriesFrom (path :: outer) = (d, .ok ()) := by
  rw [makeDirectoriesFrom, if_neg (find_eq_ok_iff.mp h).1.ne_empty, makeDirectory_of_find h]
  simp [isDirectory_of_find h]

theorem ancestorsFrom_cons (fuel : Nat) (path : String) :
    ∃ outer, HostPath.ancestorsFrom fuel path = path :: outer := by
  cases fuel with
  | zero => exact ⟨[], rfl⟩
  | succ fuel =>
      rw [HostPath.ancestorsFrom]
      split
      · exact ⟨[], rfl⟩
      · exact ⟨_, rfl⟩

/-- The last directory on a way, or else the path is empty, which is no trouble either. -/
theorem makeDirectoriesFrom_trimmed (h : d.find destination = .ok (place, .directory))
    (fuel : Nat) :
    d.makeDirectoriesFrom (HostPath.ancestorsFrom fuel (trimmed destination)) = (d, .ok ()) := by
  obtain ⟨outer, houter⟩ := ancestorsFrom_cons fuel (trimmed destination)
  obtain ⟨hway, hbegins⟩ := HostPath.sameWay_trimmed destination
  rw [houter]
  by_cases hempty : trimmed destination = ""
  · rw [makeDirectoriesFrom, if_pos hempty]
  · exact makeDirectoriesFrom_of_find (find_of_sameWay h hempty hbegins hway)

theorem ancestorsFrom_below (hdestination : destination ≠ "")
    (hordinary : ∀ other ∈ names ++ [name], Ordinary other) (fuel : Nat) :
    HostPath.ancestorsFrom (fuel + 1) ((names ++ [name]).foldl join destination) =
      (names ++ [name]).foldl join destination ::
        HostPath.ancestorsFrom fuel (trimmed (names.foldl join destination)) := by
  have hbegins := (HostPath.prefix_foldl_join
    (fun other hother => hordinary other (List.mem_append_left _ hother)) destination).1
  have hne : names.foldl join destination ≠ "" := by
    intro hempty
    rw [hempty] at hbegins
    exact hdestination (String.toList_eq_nil_iff.mp (List.prefix_nil.mp hbegins))
  rw [HostPath.ancestorsFrom, List.foldl_concat,
    HostPath.parent?_join hne (hordinary name (by simp))]

/-- Directories are made along names as far as they are missing. -/
theorem exists_makeDirectoriesFrom (h : d.find destination = .ok (place, .directory))
    (hfits : Fits destination names) (hfree : d.Free place names) {fuel : Nat}
    (hfuel : names.length ≤ fuel) :
    ∃ s, d.makeDirectoriesFrom
        (HostPath.ancestorsFrom fuel (trimmed (names.foldl join destination))) = (s, .ok ()) ∧
      d.Opened s place names := by
  induction names using List.reverseRecOn generalizing fuel with
  | nil =>
      refine ⟨d, makeDirectoriesFrom_trimmed h fuel, rfl, rfl, rfl, ?_, fun _ _ => rfl⟩
      intro front hne hbegins
      exact absurd (List.prefix_nil.mp hbegins) hne
  | append_singleton names name ih =>
      obtain ⟨fuel, rfl⟩ : ∃ more, fuel = more + 1 :=
        Nat.exists_eq_add_one.mpr (by simp at hfuel; omega)
      have hfreeFront : d.Free place names := fun front hne hbegins =>
        hfree front hne (hbegins.trans (List.prefix_append _ _))
      have hlast := hfree (names ++ [name]) (by simp) (List.prefix_refl _)
      have hpath := hfits.endsInName (by simp)
      have hdestination := (find_eq_ok_iff.mp h).1.ne_empty
      rw [HostPath.trimmed_foldl_join hfits.ordinary (by simp),
        ancestorsFrom_below hdestination hfits.ordinary, makeDirectoriesFrom,
        if_neg hpath.ne_empty]
      by_cases hway : d.Passable place names
      · rcases makeDirectory_below h hfits hway hlast with
          ⟨s, hmake, hopened⟩ | ⟨hmake, hthere, hopened⟩
        · exact ⟨s, by rw [hmake], hopened⟩
        · exact ⟨d, by simp only [hmake, hthere, if_true], hopened⟩
      · -- The outer directories come first, and then the path is tried again.
        have hmissing : d.makeDirectory ((names ++ [name]).foldl join destination) =
            .error .notFound := by
          rw [makeDirectory, withoutLastSlashes_eq hpath, locate_missing h hfits hway hfreeFront]
        obtain ⟨s, houter, hopened⟩ := ih hfits.of_append hfreeFront
          (show names.length ≤ fuel by simpa using hfuel)
        have hfind := (hopened.extends hfreeFront).find h
        have hlast' : (s.node? (place ++ (names ++ [name])) = none ∧
              s.rights.add (place ++ (names ++ [name])) = true) ∨
            s.node? (place ++ (names ++ [name])) = some .directory := by
          rwa [hopened.last, hopened.rights]
        rw [hmissing, houter]
        rcases makeDirectory_below hfind hfits hopened.passable hlast' with
          ⟨t, hmake, hmade⟩ | ⟨hmake, hthere, hmade⟩
        · exact ⟨t, by simp only [hmake], hopened.trans hmade⟩
        · exact ⟨s, by simp only [hmake, hthere, if_true], hopened.trans hmade⟩

theorem exists_makeDirectories (h : d.find destination = .ok (place, .directory))
    (hfits : Fits destination names) (hfree : d.Free place names) :
    ∃ s, d.makeDirectories (trimmed (names.foldl join destination)) = (s, .ok ()) ∧
      d.Opened s place names := by
  apply exists_makeDirectoriesFrom h hfits hfree
  by_cases hne : names = []
  · simp [hne]
  · have hlength := (HostPath.prefix_foldl_join hfits.ordinary destination).2
    rw [HostPath.trimmed_foldl_join hfits.ordinary hne]
    omega

/-- A file in the way stops the making of directories before anything is made. -/
theorem makeDirectories_blocked {rest : List String} {id : FileId}
    (h : d.find destination = .ok (place, .directory))
    (hfits : Fits destination (names ++ name :: rest)) (hway : d.Passable place names)
    (hnode : d.node? (place ++ (names ++ [name])) = some (.file id)) :
    ∃ fault, d.makeDirectories (trimmed ((names ++ name :: rest).foldl join destination)) =
      (d, .error fault) := by
  have hlocate := locate_blocked h hfits hway hnode
  have hends := hfits.endsInName (by simp)
  rw [HostPath.trimmed_foldl_join hfits.ordinary (by simp)]
  generalize (names ++ name :: rest).foldl join destination = path at hlocate hends ⊢
  obtain ⟨outer, houter⟩ := ancestorsFrom_cons path.length path
  have hnot : d.isDirectory path = false := by
    cases rest with
    | nil => simp [isDirectory, find, hlocate]
    | cons _ _ => simp [isDirectory, find, hlocate]
  have hmake : d.makeDirectory path =
      .error (if rest.isEmpty then .alreadyExists else .notADirectory) := by
    rw [makeDirectory, withoutLastSlashes_eq hends, hlocate]
    cases rest <;> rfl
  rw [makeDirectories, HostPath.ancestors, houter, makeDirectoriesFrom,
    if_neg hends.ne_empty, hmake]
  cases rest with
  | nil => exact ⟨.alreadyExists, by simp [hnot]⟩
  | cons _ _ => exact ⟨.notADirectory, by simp [hnot]⟩

theorem makeDirectories_passable (h : d.find destination = .ok (place, .directory))
    (hfits : Fits destination names) (hway : d.Passable place names) :
    d.makeDirectories (trimmed (names.foldl join destination)) = (d, .ok ()) := by
  rcases List.eq_nil_or_concat' names with rfl | ⟨front, name, rfl⟩
  · exact makeDirectoriesFrom_trimmed h _
  · have hfront : d.Passable place front := fun other hne hbegins =>
      hway other hne (hbegins.trans (List.prefix_append _ _))
    have hfind := find_below h hfits hfront (hway _ (by simp) (List.prefix_refl _)) (by simp)
    obtain ⟨outer, houter⟩ := ancestorsFrom_cons
      ((front ++ [name]).foldl join destination).length ((front ++ [name]).foldl join destination)
    rw [HostPath.trimmed_foldl_join hfits.ordinary (by simp), makeDirectories,
      HostPath.ancestors, houter]
    exact makeDirectoriesFrom_of_find hfind

theorem createFile_below (h : d.find destination = .ok (place, .directory))
    (hfits : Fits destination (names ++ [name])) (hway : d.Passable place names)
    (hnone : d.node? (place ++ (names ++ [name])) = none)
    (hadd : d.rights.add (place ++ (names ++ [name])) = true) :
    d.createFile ((names ++ [name]).foldl join destination) =
      .ok (d.putFile (place ++ (names ++ [name])), .regular d.freeNumber) := by
  have hends := hfits.endsInName (by simp)
  rw [createFile, withoutLastSlashes_eq hends, locate_below h hfits hway (by simp [hnone]), hnone]
  simp only [endsInSlash_eq_false hends, hadd, Bool.false_eq_true, if_false, if_true]

theorem removeFile_below {id : FileId} (h : d.find destination = .ok (place, .directory))
    (hfits : Fits destination (names ++ [name])) (hway : d.Passable place names)
    (hnode : d.node? (place ++ (names ++ [name])) = some (.file id))
    (hremove : d.rights.remove (place ++ (names ++ [name])) = true) :
    d.removeFile ((names ++ [name]).foldl join destination) =
      .ok (d.erase (place ++ (names ++ [name]))) := by
  rw [removeFile, locate_below h hfits hway (by simp [hnode]), hnode]
  exact if_pos hremove

theorem parent?_below (h : d.find destination = .ok (place, .directory))
    (hfits : Fits destination (names ++ [name])) :
    HostPath.parent? ((names ++ [name]).foldl join destination) =
      some (trimmed (names.foldl join destination)) := by
  have hpath := hfits.of_append.admissible (find_eq_ok_iff.mp h).1
  rw [List.foldl_concat, HostPath.parent?_join hpath.ne_empty (hfits.ordinary name (by simp))]

theorem exists_prepare (h : d.find destination = .ok (place, .directory))
    (hfits : Fits destination (names ++ [name])) (hfree : d.Free place names)
    (hnone : d.node? (place ++ (names ++ [name])) = none)
    (hadd : d.rights.add (place ++ (names ++ [name])) = true) :
    ∃ s, d.Opened s place names ∧
      Destination.prepare d ((names ++ [name]).foldl join destination) =
        (s.putFile (place ++ (names ++ [name])),
          .ok ⟨(names ++ [name]).foldl join destination, .regular s.freeNumber⟩) := by
  obtain ⟨s, hmake, hopened⟩ := exists_makeDirectories h hfits.of_append hfree
  have hfind := (hopened.extends hfree).find h
  have hnew : s.node? (place ++ (names ++ [name])) = none := by
    rw [hopened.last, hnone]
  rw [← hopened.rights] at hadd
  refine ⟨s, hopened, ?_⟩
  rw [Destination.prepare, parent?_below h hfits]
  simp only [hmake, createFile_below hfind hfits hopened.passable hnew hadd]

/-- Where a directory is, no file can be made. -/
theorem prepare_occupied (h : d.find destination = .ok (place, .directory))
    (hfits : Fits destination (names ++ [name])) (hway : d.Passable place names)
    (hnode : d.node? (place ++ (names ++ [name])) = some .directory) :
    Destination.prepare d ((names ++ [name]).foldl join destination) =
      (d, .error .isADirectory) := by
  have hends := hfits.endsInName (by simp)
  have hcreate : d.createFile ((names ++ [name]).foldl join destination) =
      .error .isADirectory := by
    rw [createFile, withoutLastSlashes_eq hends, locate_below h hfits hway (by simp [hnode]),
      hnode]
    simp
  rw [Destination.prepare, parent?_below h hfits]
  simp only [makeDirectories_passable h hfits.of_append hway, hcreate]

theorem prepare_blocked {front rest : List String} {key : String} {id : FileId}
    (h : d.find destination = .ok (place, .directory))
    (hfits : Fits destination (names ++ [name])) (hnames : names = front ++ key :: rest)
    (hway : d.Passable place front)
    (hnode : d.node? (place ++ (front ++ [key])) = some (.file id)) :
    ∃ fault, Destination.prepare d ((names ++ [name]).foldl join destination) =
      (d, .error fault) := by
  subst hnames
  obtain ⟨fault, hmake⟩ := makeDirectories_blocked h hfits.of_append hway hnode
  refine ⟨fault, ?_⟩
  rw [Destination.prepare, parent?_below h hfits]
  simp only [hmake]

end

end ArchiveOverlay.Disk
