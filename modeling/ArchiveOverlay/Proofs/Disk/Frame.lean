import ArchiveOverlay.Proofs.Disk.Making

namespace ArchiveOverlay.Disk

open HostPath (Still)

/-- A disk that is a tree: whatever is somewhere is in a directory, and so is the work. -/
structure Proper (d : Disk) : Prop where
  parent : ∀ place name, d.node? (place ++ [name]) ≠ none → d.node? place = some .directory
  workingDirectory : d.node? d.workingDirectory = some .directory

theorem proper_of_places {d : Disk}
    (hplaces : ∀ place ∈ d.nodes.map Prod.fst, d.node? place.dropLast = some .directory)
    (hworking : d.node? d.workingDirectory = some .directory) : d.Proper where
  parent := by
    intro place name hnode
    have hparent := hplaces _ (mem_places_of_node? (by simp) hnode)
    rwa [List.dropLast_concat] at hparent
  workingDirectory := hworking

/-- That all directories and links of another disk are there still. -/
def KeepsWays (s d : Disk) : Prop :=
  ∀ place node, d.node? place = some node → (∀ id, node ≠ .file id) → s.node? place = some node

section

variable {d s : Disk} {followLast : Bool} {links more : Nat} {here place place' : Location}
  {pieces rest : List String} {path target : String} {node : Node} {id id' : FileId}

theorem Proper.dropLast (hd : d.Proper) (h : d.node? here = some .directory) :
    d.node? here.dropLast = some .directory := by
  rcases List.eq_nil_or_concat here with rfl | ⟨front, name, rfl⟩
  · exact h
  · rw [List.concat_eq_append, List.dropLast_concat]
    apply hd.parent front name
    rw [← List.concat_eq_append, h]
    simp

theorem linkStart_directory (h : d.node? here = some .directory) (target : String) :
    d.node? (linkStart target here) = some .directory := by
  rw [linkStart]
  split
  · rfl
  · exact h

theorem Proper.start (hd : d.Proper) (path : String) :
    d.node? (d.start path) = some .directory := by
  rw [Disk.start]
  split
  · rfl
  · exact hd.workingDirectory

theorem ne_nil_of_node? (h : d.node? place ≠ some .directory) : place ≠ [] := by
  rintro rfl
  exact h rfl

/-- Where a path may make something, a directory is around. -/
theorem Proper.follow_missing (hd : d.Proper) (hhere : d.node? here = some .directory)
    (h : d.follow followLast links here pieces = .ok ⟨place, none⟩) :
    d.node? place = none ∧ ∃ front name, place = front ++ [name] ∧
      d.node? front = some .directory := by
  fun_induction Disk.follow d followLast links here pieces with
  | case1 links here =>
      obtain ⟨rfl, hnode⟩ := Spot.mk.inj (Except.ok.inj h)
      rw [hhere] at hnode
      cases hnode
  | case2 links here piece rest _ ih => exact ih hhere h
  | case3 links here rest _ ih => exact ih (hd.dropLast hhere) h
  | case4 => cases h
  | case5 links here piece rest _ _ _ reached hnode =>
      obtain rfl : reached = place := by simpa using h
      exact ⟨hnode, here, piece, rfl, hhere⟩
  | case6 => cases h
  | case7 links here piece rest _ _ _ reached hnode ih => exact ih hnode h
  | case8 => simp at h
  | case9 => cases h
  | case10 => simp at h
  | case11 => cases h
  | case12 here piece rest _ _ _ reached target hnode _ links start ih =>
      exact ih (linkStart_directory hhere target) h

/-- Links are followed to their end. -/
theorem Reaches.not_link (hd : d.Proper) (hhere : d.node? here = some .directory)
    (h : Reaches d true links here pieces place (.link target)) : False := by
  generalize hkind : Node.link target = kind at h
  induction h with
  | here hnode =>
      subst hkind
      simp [hnode] at hhere
  | still _ _ ih => exact ih hhere hkind
  | up _ ih => exact ih (hd.dropLast hhere) hkind
  | directory _ hnode _ ih => exact ih hnode hkind
  | file => cases hkind
  | link hlast => cases hlast
  | through _ _ _ _ ih => exact ih (linkStart_directory hhere _) hkind

/-- The way to a file leads through directories and links only, so that nothing but these and the
file itself has to stay. -/
theorem Reaches.to_file (h : Reaches d followLast links here pieces place (.file id))
    (hways : s.KeepsWays d)
    (hplace : s.node? place = some (.file id')) :
    Reaches s followLast links here pieces place (.file id') := by
  generalize hkind : Node.file id = kind at h
  induction h with
  | here => exact .here hplace
  | still hpiece _ ih => exact .still hpiece (ih hplace hkind)
  | up _ ih => exact .up (ih hplace hkind)
  | directory hpiece hnode _ ih =>
      exact .directory hpiece (hways _ _ hnode (by simp)) (ih hplace hkind)
  | file hpiece => exact .file hpiece hplace
  | link => cases hkind
  | through hmore hpiece hnode _ ih =>
      exact .through hmore hpiece (hways _ _ hnode (by simp)) (ih hplace hkind)

theorem Reaches.to_directory (h : Reaches d followLast links here pieces place .directory)
    (hways : s.KeepsWays d) :
    Reaches s followLast links here pieces place .directory := by
  generalize hkind : Node.directory = kind at h ⊢
  induction h with
  | here hnode => exact .here (hways _ _ hnode (by simp [← hkind]))
  | still hpiece _ ih => exact .still hpiece (ih hkind)
  | up _ ih => exact .up (ih hkind)
  | directory hpiece hnode _ ih => exact .directory hpiece (hways _ _ hnode (by simp)) (ih hkind)
  | file => cases hkind
  | link => cases hkind
  | through hmore hpiece hnode _ ih =>
      exact .through hmore hpiece (hways _ _ hnode (by simp)) (ih hkind)

/-- Below a place without links, names lead where they say. -/
theorem Reaches.eq_append (h : Reaches d followLast links here pieces place node)
    (hpieces : ∀ piece ∈ pieces, Ordinary piece)
    (hlinks : ∀ names target, d.node? (here ++ names) ≠ some (.link target)) :
    place = here ++ pieces := by
  induction h with
  | here => rw [List.append_nil]
  | still hpiece _ _ =>
      have hordinary := hpieces _ (List.mem_cons_self ..)
      rcases hpiece with hempty | hdot
      · exact absurd hempty hordinary.ne_empty
      · exact absurd hdot hordinary.ne_dot
  | up _ _ => exact absurd rfl (hpieces _ (List.mem_cons_self ..)).ne_dots
  | directory _ _ _ ih =>
      rw [ih (fun other hother => hpieces other (List.mem_cons_of_mem _ hother))
        (fun names target => by rw [List.append_assoc]; exact hlinks _ target), List.append_assoc,
        List.singleton_append]
  | file => rfl
  | link => rfl
  | through _ _ hnode _ _ => exact absurd hnode (hlinks _ _)

/-- Where a path named nothing, it leads to the file or directory that is put there. -/
theorem reaches_of_missing (hs : s.Extends d) (hplace : s.node? place = some node)
    (hkind : ∀ target, node ≠ .link target)
    (h : d.follow followLast links here pieces = .ok ⟨place, none⟩) :
    Reaches s followLast links here pieces place node := by
  fun_induction Disk.follow d followLast links here pieces with
  | case1 links here =>
      obtain ⟨rfl, -⟩ := Spot.mk.inj (Except.ok.inj h)
      exact .here hplace
  | case2 links here piece rest hstill ih => exact .still hstill (ih h)
  | case3 links here rest _ ih => exact .up (ih h)
  | case4 => cases h
  | case5 links here piece rest hstill hdots hfits reached hnode hlast =>
      obtain rfl : reached = place := by simpa using h
      have hpiece := nameable hstill hdots hfits
      rw [List.isEmpty_iff.mp hlast]
      cases node with
      | file id => exact .file hpiece hplace
      | directory => exact .directory hpiece hplace (.here hplace)
      | link target => exact absurd rfl (hkind target)
  | case6 => cases h
  | case7 links here piece rest hstill hdots hfits reached hnode ih =>
      exact .directory (nameable hstill hdots hfits) (hs.node _ _ hnode) (ih h)
  | case8 => simp at h
  | case9 => cases h
  | case10 => simp at h
  | case11 => cases h
  | case12 here piece rest hstill hdots hfits reached target hnode hlast links start ih =>
      refine .through ?_ (nameable hstill hdots hfits) (hs.node _ _ hnode) (ih h)
      rintro rfl
      simpa using hlast

theorem Reaches.of_still {piece : String} (hpiece : Still piece)
    (h : Reaches d followLast links here (piece :: rest) place node) :
    Reaches d followLast links here rest place node := by
  apply reaches_of_follow
  rw [← follow_still hpiece, h.follow_eq]

theorem Reaches.of_up (h : Reaches d followLast links here (".." :: rest) place node) :
    Reaches d followLast links here.dropLast rest place node := by
  apply reaches_of_follow
  rw [← follow_up, h.follow_eq]

theorem Reaches.of_directory {piece : String} (hpiece : Nameable piece)
    (hnode : d.node? (here ++ [piece]) = some .directory)
    (h : Reaches d followLast links here (piece :: rest) place node) :
    Reaches d followLast links (here ++ [piece]) rest place node := by
  have hfollow := h.follow_eq
  rw [follow_name hpiece, hnode] at hfollow
  exact reaches_of_follow hfollow

theorem Reaches.eq_of_file {piece : String} (hpiece : Nameable piece)
    (hnode : d.node? (here ++ [piece]) = some (.file id))
    (h : Reaches d followLast links here (piece :: rest) place node) :
    here ++ [piece] = place := by
  have hfollow := h.follow_eq
  rw [follow_name hpiece, hnode] at hfollow
  dsimp only at hfollow
  split at hfollow
  · exact (Spot.mk.inj (Except.ok.inj hfollow)).1
  · cases hfollow

theorem Reaches.of_through {piece : String} (hmore : rest = [] → followLast = true)
    (hpiece : Nameable piece) (hnode : d.node? (here ++ [piece]) = some (.link target))
    (h : Reaches d followLast links here (piece :: rest) place node) :
    ∃ fewer, links = fewer + 1 ∧
      Reaches d followLast fewer (linkStart target here)
        (pathPieces target ++ rest) place node := by
  have hfollow := h.follow_eq
  cases links with
  | zero =>
      have hlast : (rest.isEmpty && !followLast) = false := by
        cases rest with
        | nil => simp [hmore rfl]
        | cons _ _ => rfl
      rw [follow_name hpiece, hnode] at hfollow
      simp [hlast] at hfollow
  | succ fewer =>
      rw [follow_through hmore hpiece hnode] at hfollow
      exact ⟨fewer, rfl, reaches_of_follow hfollow⟩

/-- Behind a path to a file nothing more can be followed. -/
theorem Reaches.eq_of_append (hd : d.Proper) (hhere : d.node? here = some .directory)
    (h : Reaches d true links here pieces place (.file id))
    (h' : Reaches d true more here (pieces ++ rest) place' node) : place' = place := by
  generalize hkind : Node.file id = kind at h
  induction h generalizing more with
  | here hnode =>
      subst hkind
      simp [hnode] at hhere
  | still hpiece _ ih => exact ih hhere (h'.of_still hpiece) hkind
  | up _ ih => exact ih (hd.dropLast hhere) h'.of_up hkind
  | directory hpiece hnode _ ih => exact ih hnode (h'.of_directory hpiece hnode) hkind
  | file hpiece hnode => exact (h'.eq_of_file hpiece hnode).symm
  | link hlast => cases hlast
  | through _ hpiece hnode _ ih =>
      rw [List.cons_append] at h'
      obtain ⟨fewer, -, hrest⟩ := h'.of_through (fun _ => rfl) hpiece hnode
      rw [← List.append_assoc] at hrest
      exact ih (linkStart_directory hhere _) hrest hkind

/-- A link in the last place leads where the whole path leads. -/
theorem Reaches.from_link (hd : d.Proper) (hhere : d.node? here = some .directory)
    (h : Reaches d false links here pieces place' (.link target))
    (h' : Reaches d true links here pieces place node) :
    ∃ fewer front name, place' = front ++ [name] ∧ d.node? front = some .directory ∧
      Reaches d true fewer (linkStart target front) (pathPieces target) place node := by
  generalize hkind : Node.link target = kind at h
  induction h with
  | here hnode =>
      subst hkind
      simp [hnode] at hhere
  | still hpiece _ ih => exact ih hhere (h'.of_still hpiece) hkind
  | up _ ih => exact ih (hd.dropLast hhere) h'.of_up hkind
  | directory hpiece hnode _ ih => exact ih hnode (h'.of_directory hpiece hnode) hkind
  | file => cases hkind
  | link _ hpiece hnode =>
      obtain rfl := Node.link.inj hkind
      obtain ⟨fewer, -, hrest⟩ := h'.of_through (fun _ => rfl) hpiece hnode
      rw [List.append_nil] at hrest
      exact ⟨fewer, _, _, rfl, hhere, hrest⟩
  | through _ hpiece hnode _ ih =>
      obtain ⟨fewer, hlinks, hrest⟩ := h'.of_through (fun _ => rfl) hpiece hnode
      obtain rfl := Nat.succ.inj hlinks
      exact ih (linkStart_directory hhere _) hrest hkind

/-- A file that is reached without following a last link is reached in the same way otherwise. -/
theorem Reaches.followed_file (h : Reaches d false links here pieces place (.file id)) :
    Reaches d true links here pieces place (.file id) := by
  generalize hkind : Node.file id = kind at h ⊢
  induction h with
  | here hnode => exact .here hnode
  | still hpiece _ ih => exact .still hpiece (ih hkind)
  | up _ ih => exact .up (ih hkind)
  | directory hpiece hnode _ ih => exact .directory hpiece hnode (ih hkind)
  | file hpiece hnode => exact .file hpiece hnode
  | link => cases hkind
  | through _ hpiece hnode _ ih => exact .through (fun _ => rfl) hpiece hnode (ih hkind)

/-- A way does not use a link that leads to a file, unless it ends there. -/
theorem Reaches.without_link (hd : d.Proper) (hhere : d.node? here = some .directory)
    {front : Location} {name : String} (hlink : d.node? (front ++ [name]) = some (.link target))
    (hother : Reaches d true more (linkStart target front) (pathPieces target) place' (.file id'))
    (hne : place ≠ place') (h : Reaches d true links here pieces place node) :
    Reaches (d.erase (front ++ [name])) true links here pieces place node := by
  have hkept : ∀ location node, d.node? location = some node → location ≠ front ++ [name] →
      (d.erase (front ++ [name])).node? location = some node := by
    intro location node hnode happart
    rw [node?_erase (by simp), if_neg happart, hnode]
  have hkeeps : ∀ location node, d.node? location = some node → node ≠ .link target →
      (d.erase (front ++ [name])).node? location = some node := by
    intro location node hnode hkind
    apply hkept location node hnode
    rintro rfl
    exact hkind (Option.some.inj (hnode.symm.trans hlink))
  induction h with
  | here hnode =>
      obtain rfl := Option.some.inj (hhere.symm.trans hnode)
      exact .here (hkeeps _ _ hnode (by simp))
  | still hpiece _ ih => exact .still hpiece (ih hhere hne)
  | up _ ih => exact .up (ih (hd.dropLast hhere) hne)
  | directory hpiece hnode _ ih =>
      exact .directory hpiece (hkeeps _ _ hnode (by simp)) (ih hnode hne)
  | file hpiece hnode => exact .file hpiece (hkeeps _ _ hnode (by simp))
  | link hlast => cases hlast
  | @through _ here piece _ _ _ _ _ hpiece hnode hrest ih =>
      refine .through (fun _ => rfl) hpiece (hkept _ _ hnode ?_)
        (ih (linkStart_directory hhere _) hne)
      -- Through that link, the way would end at the file.
      intro hsame
      obtain ⟨rfl, -⟩ := List.append_inj' hsame rfl
      rw [hsame, hlink] at hnode
      obtain rfl := Node.link.inj (Option.some.inj hnode)
      exact hne (hother.eq_of_append hd (linkStart_directory hhere _) hrest)

/-- Where a path leads depends on what is at the places alone. -/
theorem follow_congr (h : ∀ place, s.node? place = d.node? place) :
    s.follow followLast links here pieces = d.follow followLast links here pieces := by
  fun_induction Disk.follow d followLast links here pieces with
  | case1 links here => rw [follow, h]
  | case2 links here piece rest hstill ih => rw [follow_still hstill, ih]
  | case3 links here rest _ ih => rw [follow_up, ih]
  | case4 links here piece rest hstill hdots hfits =>
      rw [follow, if_neg hstill, if_neg hdots, if_pos hfits]
  | case5 links here piece rest hstill hdots hfits reached hnode hlast =>
      rw [follow_name (nameable hstill hdots hfits), h, hnode]
      exact if_pos hlast
  | case6 links here piece rest hstill hdots hfits reached hnode hlast =>
      rw [follow_name (nameable hstill hdots hfits), h, hnode]
      exact if_neg hlast
  | case7 links here piece rest hstill hdots hfits reached hnode ih =>
      rw [follow_name (nameable hstill hdots hfits), h, hnode]
      exact ih
  | case8 links here piece rest hstill hdots hfits reached id hnode hlast =>
      rw [follow_name (nameable hstill hdots hfits), h, hnode]
      exact if_pos hlast
  | case9 links here piece rest hstill hdots hfits reached id hnode hlast =>
      rw [follow_name (nameable hstill hdots hfits), h, hnode]
      exact if_neg hlast
  | case10 links here piece rest hstill hdots hfits reached target hnode hlast =>
      rw [follow_name (nameable hstill hdots hfits), h, hnode]
      exact if_pos hlast
  | case11 here piece rest hstill hdots hfits reached target hnode hlast =>
      rw [follow_name (nameable hstill hdots hfits), h, hnode]
      exact if_neg hlast
  | case12 here piece rest hstill hdots hfits reached target hnode hlast links start ih =>
      rw [follow_name (nameable hstill hdots hfits), h, hnode]
      exact (if_neg hlast).trans ih

end

section

variable {d s : Disk} {path path' : String} {place place' name : Location} {node : Node}
  {id id' : FileId} {content : ByteArray}

theorem locate_congr (h : ∀ place, s.node? place = d.node? place)
    (hworking : s.workingDirectory = d.workingDirectory) (path : String) (followLast : Bool) :
    s.locate path followLast = d.locate path followLast := by
  simp only [locate, hworking, follow_congr h]

@[simp]
theorem locate_write (d : Disk) (id : FileId) (content : ByteArray) (path : String)
    (followLast : Bool) : (d.write id content).locate path followLast = d.locate path followLast :=
  locate_congr (by simp) (by simp) path followLast

theorem find_congr (h : ∀ followLast, s.locate path followLast = d.locate path followLast) :
    s.find path = d.find path := by
  rw [find, find, h]

@[simp]
theorem find_write (d : Disk) (id : FileId) (content : ByteArray) (path : String) :
    (d.write id content).find path = d.find path :=
  find_congr (by simp)

theorem Extends.refl (d : Disk) : d.Extends d :=
  ⟨rfl, fun _ _ h => h⟩

theorem Extends.trans {t : Disk} (h : t.Extends s) (h' : s.Extends d) : t.Extends d where
  workingDirectory := h.workingDirectory.trans h'.workingDirectory
  node := fun place node hnode => h.node place node (h'.node place node hnode)

theorem extends_put (hnone : d.node? place = none) (node : Node) :
    (d.put place node).Extends d where
  workingDirectory := rfl
  node := by
    intro other found hfound
    have hne : place ≠ [] := ne_nil_of_node? (d := d) (by simp [hnone])
    rw [node?_put hne, if_neg, hfound]
    rintro rfl
    simp [hnone] at hfound

/-- What is put into a directory, in the place of no other, leaves the disk a tree. -/
theorem Proper.put (hd : d.Proper) {front : Location} {name : String}
    (hfront : d.node? front = some .directory)
    (hnode : d.node? (front ++ [name]) ≠ some .directory) (node : Node) :
    (d.put (front ++ [name]) node).Proper := by
  have hkept : ∀ other, d.node? other = some .directory →
      (d.put (front ++ [name]) node).node? other = some .directory := by
    intro other hother
    rw [node?_put (by simp), if_neg, hother]
    rintro rfl
    exact hnode hother
  constructor
  · intro other last hlast
    apply hkept
    rw [node?_put (by simp)] at hlast
    split at hlast
    next hsame =>
      obtain ⟨rfl, -⟩ := List.append_inj' hsame rfl
      exact hfront
    · exact hd.parent other last hlast
  · exact hkept _ hd.workingDirectory

theorem Proper.erase (hd : d.Proper) (hplace : d.node? place ≠ some .directory) :
    (d.erase place).Proper := by
  have hne := ne_nil_of_node? hplace
  have hkept : ∀ other, d.node? other = some .directory →
      (d.erase place).node? other = some .directory := by
    intro other hother
    rw [node?_erase hne, if_neg, hother]
    rintro rfl
    exact hplace hother
  constructor
  · intro other last hlast
    apply hkept
    apply hd.parent other last
    rw [node?_erase hne] at hlast
    split at hlast
    · exact absurd rfl hlast
    · exact hlast
  · exact hkept _ hd.workingDirectory

theorem Proper.write (hd : d.Proper) (id : FileId) (content : ByteArray) :
    (d.write id content).Proper where
  parent := by
    simp only [node?_write]
    exact hd.parent
  workingDirectory := by
    simp only [node?_write, workingDirectory_write]
    exact hd.workingDirectory

theorem keepsWays_erase (hplace : d.node? place = some (.file id)) :
    (d.erase place).KeepsWays d := by
  intro other node hnode hfile
  rw [node?_erase (ne_nil_of_node? (d := d) (by simp [hplace])), if_neg, hnode]
  rintro rfl
  exact hfile id (Option.some.inj (hnode.symm.trans hplace))

theorem Proper.locate_missing (hd : d.Proper) {followLast : Bool}
    (h : d.locate path followLast = .ok ⟨place, none⟩) :
    d.node? place = none ∧ ∃ front name, place = front ++ [name] ∧
      d.node? front = some .directory := by
  rw [locate_eq (admissible_of_locate h)] at h
  exact hd.follow_missing (hd.start path) h

theorem find_of_locate_file {followLast : Bool}
    (h : d.locate path followLast = .ok ⟨place, some (.file id)⟩) :
    d.find path = .ok (place, .file id) := by
  have hpath := admissible_of_locate h
  rw [locate_eq hpath] at h
  refine find_eq_ok_iff.mpr ⟨hpath, ?_⟩
  cases followLast with
  | true => exact reaches_of_follow h
  | false => exact (reaches_of_follow h).followed_file

/-- A path to a file leads there as long as the directories and links stay, and the file does. -/
theorem find_of_ways (hworking : s.workingDirectory = d.workingDirectory)
    (hways : s.KeepsWays d) (hplace : s.node? place = some (.file id'))
    (h : d.find path = .ok (place, .file id)) : s.find path = .ok (place, .file id') := by
  obtain ⟨hpath, hreaches⟩ := find_eq_ok_iff.mp h
  have hstart : s.start path = d.start path := by rw [start, start, hworking]
  rw [find_eq_ok_iff, hstart]
  exact ⟨hpath, hreaches.to_file hways hplace⟩

theorem find_directory_of_ways (hworking : s.workingDirectory = d.workingDirectory)
    (hways : s.KeepsWays d)
    (h : d.find path = .ok (place, .directory)) : s.find path = .ok (place, .directory) := by
  obtain ⟨hpath, hreaches⟩ := find_eq_ok_iff.mp h
  have hstart : s.start path = d.start path := by rw [start, start, hworking]
  rw [find_eq_ok_iff, hstart]
  exact ⟨hpath, hreaches.to_directory hways⟩

/-- What a disk is after directories have been made, whether all or not. -/
structure Grown (s d : Disk) : Prop where
  proper : s.Proper
  kept : s.Extends d
  contents : s.contents = d.contents
  rights : s.rights = d.rights
  added : ∀ place node, s.node? place = some node → node = .directory ∨ d.node? place = some node

theorem content_congr (h : s.contents = d.contents) (id : FileId) :
    s.content id = d.content id := by
  cases id with
  | null => rfl
  | regular number => simp only [Disk.content, h]

theorem Proper.grown (hd : d.Proper) : d.Grown d :=
  ⟨hd, .refl d, rfl, rfl, fun _ _ h => .inr h⟩

theorem Grown.trans {t : Disk} (h : t.Grown s) (h' : s.Grown d) : t.Grown d where
  proper := h.proper
  kept := h.kept.trans h'.kept
  contents := h.contents.trans h'.contents
  rights := h.rights.trans h'.rights
  added := by
    intro place node hnode
    rcases h.added place node hnode with hdirectory | hnode
    · exact .inl hdirectory
    · exact h'.added place node hnode

theorem makeDirectory_ok (hd : d.Proper) (h : d.makeDirectory path = .ok s) : s.Grown d := by
  unfold makeDirectory at h
  split at h
  · cases h
  · cases h
  next location hlocate =>
    split at h
    · cases h
      obtain ⟨hnone, front, name, rfl, hfront⟩ := hd.locate_missing hlocate
      refine ⟨hd.put hfront (by simp [hnone]) _, extends_put hnone _, rfl, rfl, ?_⟩
      intro place node hnode
      rw [node?_put (by simp)] at hnode
      split at hnode
      · exact .inl (Option.some.inj hnode).symm
      · exact .inr hnode
    · cases h

theorem makeDirectoriesFrom_grown (hd : d.Proper) (paths : List String) :
    (d.makeDirectoriesFrom paths).1.Grown d := by
  induction paths with
  | nil => exact hd.grown
  | cons path outer ih =>
      rw [makeDirectoriesFrom]
      split
      · exact hd.grown
      · split
        next made hmade => exact makeDirectory_ok hd hmade
        · split
          next houter =>
            rw [houter] at ih
            exact ih
          next s houter =>
            rw [houter] at ih
            split
            next made hmade => exact (makeDirectory_ok ih.proper hmade).trans ih
            · split <;> exact ih
        · split <;> exact hd.grown

/-- What opening a file for writing does to a disk: the file is empty then, and if it was not
there, it has been made, with no other name. -/
structure Created (s d : Disk) (place : Location) (id : FileId) : Prop where
  proper : s.Proper
  kept : s.Extends d
  rights : s.rights = d.rights
  node : s.node? place = some (.file id)
  other : ∀ other, other ≠ place → s.node? other = d.node? other
  before : d.node? place = none ∧ id ≠ .null ∧ (∀ location, d.node? location ≠ some (.file id)) ∨
    d.node? place = some (.file id)
  content : ∀ other, other ≠ id → s.content other = d.content other
  empty : s.content id = .empty

theorem created_putFile (hd : d.Proper) {front : Location} {name : String}
    (hfront : d.node? front = some .directory) (hnone : d.node? (front ++ [name]) = none) :
    (d.putFile (front ++ [name])).Created d (front ++ [name]) (.regular d.freeNumber) where
  proper := (hd.put hfront (by simp [hnone]) _).write _ _
  kept := by
    have hput := extends_put hnone (.file (.regular d.freeNumber))
    exact ⟨hput.workingDirectory, fun place node hnode => hput.node place node hnode⟩
  rights := rfl
  node := by rw [node?_putFile (by simp), if_pos rfl]
  other := by
    intro other hother
    rw [node?_putFile (by simp), if_neg hother]
  before := .inl ⟨hnone, by simp, fun location hnode => ne_freeNumber hnode rfl⟩
  content := fun other hother => content_putFile hother
  empty := content_write _ _ (by simp)

theorem created_write (hd : d.Proper) (hnode : d.node? place = some (.file id)) :
    (d.write id .empty).Created d place id where
  proper := hd.write id .empty
  kept := ⟨by simp, by simp⟩
  rights := by simp
  node := by simpa using hnode
  other := by simp
  before := .inr hnode
  content := fun other hother => content_write_of_ne d .empty hother
  empty := by
    by_cases hnull : id = .null
    · rw [hnull]
      rfl
    · exact content_write d .empty hnull

/-- A file that can be opened for writing is found under its path. -/
theorem createFile_ok (hd : d.Proper) (h : d.createFile path = .ok (s, id)) :
    ∃ place, s.Created d place id ∧ s.find path = .ok (place, .file id) ∧
      d.locate path true = .ok ⟨place, d.node? place⟩ := by
  unfold createFile at h
  split at h
  · cases h
  next location node? hlocate =>
    split at h
    · cases h
    next hslash =>
      have hsame : withoutLastSlashes path = path := by
        by_cases hempty : path = ""
        · rw [hempty]
          rfl
        · exact withoutLastSlashes_eq ⟨hempty, by simpa [endsInSlash] using hslash⟩
      rw [hsame] at hlocate
      have hpath := admissible_of_locate hlocate
      split at h
      next =>
        split at h
        · cases h
          obtain ⟨hnone, front, name, rfl, hfront⟩ := hd.locate_missing hlocate
          have hcreated := created_putFile hd hfront hnone
          refine ⟨_, hcreated, find_eq_ok_iff.mpr ⟨hpath, ?_⟩, by rw [hlocate, hnone]⟩
          rw [locate_eq hpath] at hlocate
          exact reaches_of_missing hcreated.kept hcreated.node (by simp) hlocate
        · cases h
      next file =>
        split at h
        · cases h
          have hfind := find_of_locate_file hlocate
          have hnode := node?_of_find hfind
          exact ⟨location, created_write hd hnode, by simpa using hfind, by rw [hlocate, hnode]⟩
        · cases h
      next => cases h

/-- A file that could be written holds what was written, if it is an ordinary one. -/
theorem writeFile_ok (hd : d.Proper) (hordinary : ∀ place, d.find path ≠ .ok (place, .file .null))
    (h : d.writeFile path content = .ok s) : s.Proper ∧ s.fileContent path = .ok content := by
  rw [writeFile] at h
  cases hcreate : d.createFile path with
  | error fault =>
    rw [hcreate] at h
    cases h
  | ok made =>
    obtain ⟨made, id⟩ := made
    obtain ⟨place, hcreated, hfind, hlocate⟩ := createFile_ok hd hcreate
    have hnull : id ≠ .null := by
      rintro rfl
      rcases hcreated.before with ⟨-, hnull, -⟩ | hthere
      · exact hnull rfl
      · rw [hthere] at hlocate
        exact hordinary place (find_of_locate_file hlocate)
    rw [hcreate] at h
    cases h
    refine ⟨hcreated.proper.write id content, ?_⟩
    simp only [fileContent, find_write, hfind, content_write made content hnull]

/-- The name that the path of a file itself leads to: the file's own, or that of a link to it. -/
theorem name_cases (hpath : d.find path = .ok (place, .file id))
    (hname : d.locate path false = .ok ⟨name, some node⟩) :
    name = place ∧ node = .file id ∨ ∃ target, node = .link target := by
  cases node with
  | file found =>
      have hsame := find_of_locate_file hname
      rw [hpath, Except.ok.injEq, Prod.mk.injEq] at hsame
      exact .inl ⟨hsame.1.symm, hsame.2.symm⟩
  | directory =>
      rw [find_of_locate hname] at hpath
      cases hpath
  | link target => exact .inr ⟨target, rfl⟩

/-- When that name is taken away, all other paths lead where they did. -/
theorem erase_name (hd : d.Proper) (hpath : d.find path = .ok (place, .file id))
    (hname : d.locate path false = .ok ⟨name, some node⟩) :
    (d.erase name).Proper ∧ ∀ other location found, location ≠ place →
      d.find other = .ok (location, found) →
      (d.erase name).find other = .ok (location, found) := by
  have hreaches := hname
  rw [locate_eq (admissible_of_locate hname)] at hreaches
  replace hreaches := reaches_of_follow hreaches
  have hnode := hreaches.node?_eq
  rcases name_cases hpath hname with ⟨rfl, rfl⟩ | ⟨target, rfl⟩
  · refine ⟨hd.erase (by simp [hnode]), ?_⟩
    intro other location found hne hother
    have hways := keepsWays_erase hnode
    cases found with
    | file file =>
        refine find_of_ways (d := d) rfl hways ?_ hother
        rw [node?_erase (ne_nil_of_node? (d := d) (by simp [hnode])),
          if_neg hne, node?_of_find hother]
    | directory => exact find_directory_of_ways (d := d) rfl hways hother
    | link target => exact ((find_eq_ok_iff.mp hother).2.not_link hd (hd.start other)).elim
  · refine ⟨hd.erase (by simp [hnode]), ?_⟩
    intro other location found hne hother
    obtain ⟨-, hlast⟩ := find_eq_ok_iff.mp hpath
    obtain ⟨fewer, front, last, rfl, -, hlink⟩ := hreaches.from_link hd (hd.start path) hlast
    obtain ⟨hadmissible, hway⟩ := find_eq_ok_iff.mp hother
    exact find_eq_ok_iff.mpr ⟨hadmissible,
      Reaches.without_link hd (hd.start other) hnode hlink hne hway⟩

/-- A disk that is a tree, with a path to a file and what is in it. -/
structure Holds (d : Disk) (path : String) (place : Location) (id : FileId) (content : ByteArray) :
    Prop where
  proper : d.Proper
  find : d.find path = .ok (place, .file id)
  content : d.content id = content

namespace Holds

theorem grown (h : d.Holds path place id content) (hs : s.Grown d) :
    s.Holds path place id content :=
  ⟨hs.proper, hs.kept.find h.find, (content_congr hs.contents id).trans h.content⟩

theorem makeDirectories (h : d.Holds path place id content) (dir : String) :
    (d.makeDirectories dir).1.Holds path place id content :=
  h.grown (makeDirectoriesFrom_grown h.proper (HostPath.ancestors dir))

theorem created (h : d.Holds path place id content) (hs : s.Created d place' id')
    (hne : id ≠ id') :
    s.Holds path place id content :=
  ⟨hs.proper, hs.kept.find h.find, (hs.content id hne).trans h.content⟩

theorem write (h : d.Holds path place id content) (hne : id ≠ id') (data : ByteArray) :
    (d.write id' data).Holds path place id content := by
  refine ⟨h.proper.write id' data, ?_, (content_write_of_ne d data hne).trans h.content⟩
  rw [find_write, h.find]

theorem erase (h : d.Holds path place id content) (hpath : d.find path' = .ok (place', .file id'))
    (hname : d.locate path' false = .ok ⟨name, some node⟩) (hne : id ≠ id') :
    (d.erase name).Holds path place id content := by
  obtain ⟨hproper, hfound⟩ := erase_name h.proper hpath hname
  refine ⟨hproper, hfound path place _ ?_ h.find, h.content⟩
  rintro rfl
  have hsame := (node?_of_find h.find).symm.trans (node?_of_find hpath)
  exact hne (Node.file.inj (Option.some.inj hsame))

end Holds

end

end ArchiveOverlay.Disk
