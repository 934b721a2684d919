import ArchiveOverlay.Proofs.Disk.HostPath

namespace ArchiveOverlay.Disk

open HostPath (Still)

/-- A piece of a path that names a member of a directory. -/
structure Nameable (piece : String) : Prop where
  ne_empty : piece ≠ ""
  ne_dot : piece ≠ "."
  ne_dots : piece ≠ ".."
  fits : piece.utf8ByteSize ≤ maxNameSize

theorem nameable {piece : String} (hstill : ¬ Still piece) (hdots : piece ≠ "..")
    (hfits : ¬ maxNameSize < piece.utf8ByteSize) : Nameable piece where
  ne_empty := fun h => hstill (.inl h)
  ne_dot := fun h => hstill (.inr h)
  ne_dots := hdots
  fits := not_lt.mp hfits

theorem Nameable.not_still {piece : String} (h : Nameable piece) : ¬ Still piece := by
  rintro (hempty | hdot)
  · exact h.ne_empty hempty
  · exact h.ne_dot hdot

/-- Where the path of a link starts. -/
def linkStart (target : String) (here : Location) : Location :=
  if HostPath.isAbsolute target then [] else here

/-- How the pieces of a path lead to something. -/
inductive Reaches (d : Disk) (followLast : Bool) :
    Nat → Location → List String → Location → Node → Prop where
  | here {links here node} (hnode : d.node? here = some node) :
      Reaches d followLast links here [] here node
  | still {links here piece rest place node} (hpiece : Still piece)
      (hrest : Reaches d followLast links here rest place node) :
      Reaches d followLast links here (piece :: rest) place node
  | up {links here rest place node}
      (hrest : Reaches d followLast links here.dropLast rest place node) :
      Reaches d followLast links here (".." :: rest) place node
  | directory {links here piece rest place node} (hpiece : Nameable piece)
      (hnode : d.node? (here ++ [piece]) = some .directory)
      (hrest : Reaches d followLast links (here ++ [piece]) rest place node) :
      Reaches d followLast links here (piece :: rest) place node
  | file {links here piece id} (hpiece : Nameable piece)
      (hnode : d.node? (here ++ [piece]) = some (.file id)) :
      Reaches d followLast links here [piece] (here ++ [piece]) (.file id)
  | link {links here piece target} (hlast : followLast = false) (hpiece : Nameable piece)
      (hnode : d.node? (here ++ [piece]) = some (.link target)) :
      Reaches d followLast links here [piece] (here ++ [piece]) (.link target)
  | through {links here piece target rest place node} (hmore : rest = [] → followLast = true)
      (hpiece : Nameable piece) (hnode : d.node? (here ++ [piece]) = some (.link target))
      (hrest : Reaches d followLast links (linkStart target here) (pathPieces target ++ rest)
        place node) :
      Reaches d followLast (links + 1) here (piece :: rest) place node

section

variable {d : Disk} {followLast : Bool} {links : Nat} {here place : Location} {piece : String}
  {pieces rest names : List String} {node : Node}

theorem follow_still (h : Still piece) :
    d.follow followLast links here (piece :: rest) = d.follow followLast links here rest := by
  have hpiece : piece = "" ∨ piece = "." := h
  rw [follow, if_pos hpiece]

theorem follow_up :
    d.follow followLast links here (".." :: rest) =
      d.follow followLast links here.dropLast rest := by
  rw [follow, if_neg (by decide), if_pos rfl]

theorem follow_name (h : Nameable piece) :
    d.follow followLast links here (piece :: rest) =
      match d.node? (here ++ [piece]) with
      | none => if rest.isEmpty then .ok ⟨here ++ [piece], none⟩ else .error .notFound
      | some .directory => d.follow followLast links (here ++ [piece]) rest
      | some (.file id) =>
        if rest.isEmpty then .ok ⟨here ++ [piece], some (.file id)⟩ else .error .notADirectory
      | some (.link target) =>
        if rest.isEmpty && !followLast then .ok ⟨here ++ [piece], some (.link target)⟩
        else
          match links with
          | 0 => .error .tooManyLinks
          | links + 1 =>
            d.follow followLast links (linkStart target here) (pathPieces target ++ rest) := by
  have hstill : ¬ (piece = "" ∨ piece = ".") := by simp [h.ne_empty, h.ne_dot]
  rw [follow, if_neg hstill, if_neg h.ne_dots, if_neg (not_lt.mpr h.fits)]
  rfl

theorem follow_through {target : String} (hmore : rest = [] → followLast = true)
    (h : Nameable piece) (hnode : d.node? (here ++ [piece]) = some (.link target)) :
    d.follow followLast (links + 1) here (piece :: rest) =
      d.follow followLast links (linkStart target here) (pathPieces target ++ rest) := by
  have hlast : (rest.isEmpty && !followLast) = false := by
    cases rest with
    | nil => simp [hmore rfl]
    | cons _ _ => rfl
  rw [follow_name h, hnode]
  simp only [hlast, Bool.false_eq_true, if_false]

theorem Reaches.follow_eq (h : Reaches d followLast links here pieces place node) :
    d.follow followLast links here pieces = .ok ⟨place, some node⟩ := by
  induction h with
  | here hnode => rw [follow, hnode]
  | still hpiece _ ih => rw [follow_still hpiece, ih]
  | up _ ih => rw [follow_up, ih]
  | directory hpiece hnode _ ih => rw [follow_name hpiece, hnode, ← ih]
  | file hpiece hnode => simp [follow_name hpiece, hnode]
  | link hlast hpiece hnode => simp [follow_name hpiece, hnode, hlast]
  | through hmore hpiece hnode _ ih => rw [follow_through hmore hpiece hnode, ih]

theorem reaches_of_follow (h : d.follow followLast links here pieces = .ok ⟨place, some node⟩) :
    Reaches d followLast links here pieces place node := by
  fun_induction Disk.follow d followLast links here pieces with
  | case1 links here =>
      obtain ⟨rfl, hnode⟩ := Spot.mk.inj (Except.ok.inj h)
      exact .here hnode
  | case2 links here piece rest hstill ih => exact .still hstill (ih h)
  | case3 links here rest _ ih => exact .up (ih h)
  | case4 => cases h
  | case5 => simp at h
  | case6 => cases h
  | case7 links here piece rest hstill hdots hfits reached hnode ih =>
      exact .directory (nameable hstill hdots hfits) hnode (ih h)
  | case8 links here piece rest hstill hdots hfits reached id hnode hlast =>
      obtain ⟨rfl, rfl⟩ : reached = place ∧ Node.file id = node := by simpa using h
      rw [List.isEmpty_iff.mp hlast]
      exact .file (nameable hstill hdots hfits) hnode
  | case9 => cases h
  | case10 links here piece rest hstill hdots hfits reached target hnode hlast =>
      obtain ⟨rfl, rfl⟩ : reached = place ∧ Node.link target = node := by simpa using h
      rw [Bool.and_eq_true, Bool.not_eq_true'] at hlast
      rw [List.isEmpty_iff.mp hlast.1]
      exact .link hlast.2 (nameable hstill hdots hfits) hnode
  | case11 => cases h
  | case12 here piece rest hstill hdots hfits reached target hnode hlast links start ih =>
      refine .through ?_ (nameable hstill hdots hfits) hnode ?_
      · rintro rfl
        simpa using hlast
      · exact ih h

theorem Reaches.node?_eq (h : Reaches d followLast links here pieces place node) :
    d.node? place = some node := by
  induction h with
  | here hnode => exact hnode
  | still _ _ ih => exact ih
  | up _ ih => exact ih
  | directory _ _ _ ih => exact ih
  | file _ hnode => exact hnode
  | link _ _ hnode => exact hnode
  | through _ _ _ _ ih => exact ih

/-- That a disk still has all that another one has. -/
structure Extends (s d : Disk) : Prop where
  workingDirectory : s.workingDirectory = d.workingDirectory
  node : ∀ place node, d.node? place = some node → s.node? place = some node

/-- What has been reached is reached in the same way on a disk that has more. -/
theorem Reaches.extend {s : Disk} (hs : s.Extends d)
    (h : Reaches d followLast links here pieces place node) :
    Reaches s followLast links here pieces place node := by
  induction h with
  | here hnode => exact .here (hs.node _ _ hnode)
  | still hpiece _ ih => exact .still hpiece ih
  | up _ ih => exact .up ih
  | directory hpiece hnode _ ih => exact .directory hpiece (hs.node _ _ hnode) ih
  | file hpiece hnode => exact .file hpiece (hs.node _ _ hnode)
  | link hlast hpiece hnode => exact .link hlast hpiece (hs.node _ _ hnode)
  | through hmore hpiece hnode _ ih => exact .through hmore hpiece (hs.node _ _ hnode) ih

/-- A link in the last place is something, too. -/
theorem Reaches.unfollowed (h : Reaches d true links here pieces place node) :
    ∃ place' node', Reaches d false links here pieces place' node' := by
  induction h with
  | here hnode => exact ⟨_, _, .here hnode⟩
  | still hpiece _ ih =>
      obtain ⟨place', node', ih⟩ := ih
      exact ⟨place', node', .still hpiece ih⟩
  | up _ ih =>
      obtain ⟨place', node', ih⟩ := ih
      exact ⟨place', node', .up ih⟩
  | directory hpiece hnode _ ih =>
      obtain ⟨place', node', ih⟩ := ih
      exact ⟨place', node', .directory hpiece hnode ih⟩
  | file hpiece hnode => exact ⟨_, _, .file hpiece hnode⟩
  | link hlast => cases hlast
  | @through links here piece target rest place node hmore hpiece hnode _ ih =>
      by_cases hrest : rest = []
      · subst hrest
        exact ⟨_, _, .link rfl hpiece hnode⟩
      · obtain ⟨place', node', ih⟩ := ih
        exact ⟨place', node', .through (fun h => absurd h hrest) hpiece hnode ih⟩

/-- A directory is reached in the same way if a link in its place would be followed. -/
theorem Reaches.followed (h : Reaches d false links here pieces place .directory) :
    Reaches d true links here pieces place .directory := by
  generalize hkind : Node.directory = kind at h ⊢
  induction h with
  | here hnode => exact .here hnode
  | still hpiece _ ih => exact .still hpiece (ih hkind)
  | up _ ih => exact .up (ih hkind)
  | directory hpiece hnode _ ih => exact .directory hpiece hnode (ih hkind)
  | file => cases hkind
  | link => cases hkind
  | through _ hpiece hnode _ ih => exact .through (fun _ => rfl) hpiece hnode (ih hkind)

/-- Behind a path to a directory, everything is followed from that directory on. -/
theorem Reaches.follow_append (h : Reaches d true links here pieces place .directory) :
    ∃ fewer, ∀ followLast more, more ≠ [] →
      d.follow followLast links here (pieces ++ more) = d.follow followLast fewer place more := by
  generalize hkind : Node.directory = kind at h
  induction h with
  | @here links here _ hnode => exact ⟨links, fun _ _ _ => rfl⟩
  | still hpiece _ ih =>
      obtain ⟨fewer, hfewer⟩ := ih hkind
      refine ⟨fewer, fun followLast more hmore => ?_⟩
      rw [List.cons_append, follow_still hpiece, hfewer followLast more hmore]
  | up _ ih =>
      obtain ⟨fewer, hfewer⟩ := ih hkind
      refine ⟨fewer, fun followLast more hmore => ?_⟩
      rw [List.cons_append, follow_up, hfewer followLast more hmore]
  | directory hpiece hnode _ ih =>
      obtain ⟨fewer, hfewer⟩ := ih hkind
      refine ⟨fewer, fun followLast more hmore => ?_⟩
      rw [List.cons_append, follow_name hpiece, hnode]
      exact hfewer followLast more hmore
  | file => cases hkind
  | link => cases hkind
  | through _ hpiece hnode _ ih =>
      obtain ⟨fewer, hfewer⟩ := ih hkind
      refine ⟨fewer, fun followLast more hmore => ?_⟩
      -- With more behind it the link is not in the last place.
      rw [List.cons_append, follow_through (by simp [hmore]) hpiece hnode, ← List.append_assoc]
      exact hfewer followLast more hmore

/-- A path to a directory may do without pieces at its end that stand still. -/
theorem Reaches.of_append_still {stills : List String} (hstills : ∀ piece ∈ stills, Still piece)
    (h : Reaches d true links here (pieces ++ stills) place .directory) :
    Reaches d true links here pieces place .directory := by
  generalize hall : pieces ++ stills = all at h
  generalize hkind : Node.directory = kind at h ⊢
  induction h generalizing pieces stills with
  | here hnode =>
      rw [(List.append_eq_nil_iff.mp hall).1]
      exact .here hnode
  | @still links here piece rest place node hpiece _ ih =>
      rcases List.append_eq_cons_iff.mp hall with ⟨rfl, rfl⟩ | ⟨pieces, rfl, rfl⟩
      · have hnil : [] ++ rest = rest := List.nil_append rest
        exact ih (fun other hother => hstills other (by simp [hother])) hnil hkind
      · exact .still hpiece (ih hstills rfl hkind)
  | up _ ih =>
      rcases List.append_eq_cons_iff.mp hall with ⟨rfl, rfl⟩ | ⟨pieces, rfl, rfl⟩
      · have hdots := hstills ".." (by simp)
        simp [Still] at hdots
      · exact .up (ih hstills rfl hkind)
  | directory hpiece hnode _ ih =>
      rcases List.append_eq_cons_iff.mp hall with ⟨rfl, rfl⟩ | ⟨pieces, rfl, rfl⟩
      · exact absurd (hstills _ (by simp)) hpiece.not_still
      · exact .directory hpiece hnode (ih hstills rfl hkind)
  | file => cases hkind
  | link => cases hkind
  | through _ hpiece hnode _ ih =>
      rcases List.append_eq_cons_iff.mp hall with ⟨rfl, rfl⟩ | ⟨pieces, rfl, rfl⟩
      · exact absurd (hstills _ (by simp)) hpiece.not_still
      · exact .through (fun _ => rfl) hpiece hnode (ih hstills (List.append_assoc ..) hkind)

theorem Reaches.append_still {stills : List String} (hstills : ∀ piece ∈ stills, Still piece)
    (h : Reaches d true links here pieces place .directory) :
    Reaches d true links here (pieces ++ stills) place .directory := by
  generalize hkind : Node.directory = kind at h ⊢
  induction h with
  | here hnode =>
      induction stills with
      | nil => exact .here hnode
      | cons piece stills ih =>
          exact .still (hstills piece (by simp))
            (ih fun other hother => hstills other (by simp [hother]))
  | still hpiece _ ih => exact .still hpiece (ih hkind)
  | up _ ih => exact .up (ih hkind)
  | directory hpiece hnode _ ih => exact .directory hpiece hnode (ih hkind)
  | file => cases hkind
  | link => cases hkind
  | through _ hpiece hnode _ ih =>
      have hrest := ih hkind
      rw [List.append_assoc] at hrest
      exact .through (fun _ => rfl) hpiece hnode hrest

theorem follow_directories {more : List String} (hnames : ∀ name ∈ names, Nameable name)
    (h : ∀ front, front ≠ [] → front <+: names → d.node? (place ++ front) = some .directory) :
    d.follow followLast links place (names ++ more) =
      d.follow followLast links (place ++ names) more := by
  induction names generalizing place with
  | nil => rw [List.nil_append, List.append_nil]
  | cons name names ih =>
      have hfirst : d.node? (place ++ [name]) = some .directory :=
        h [name] (by simp) (by simp [List.cons_prefix_cons])
      rw [List.cons_append, follow_name (hnames name (by simp)), hfirst]
      dsimp only
      rw [ih (fun other hother => hnames other (by simp [hother]))]
      · simp
      · intro front hne hbegins
        have hlonger := h (name :: front) (by simp) (List.cons_prefix_cons.mpr ⟨rfl, hbegins⟩)
        simpa using hlonger

end

end ArchiveOverlay.Disk
