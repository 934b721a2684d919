import ArchiveOverlay.Proofs.Disk.Frame

namespace ArchiveOverlay

namespace HostPath

theorem trimBackwards_head (rooted : Bool) (cs : List Char) :
    (trimBackwards rooted cs).head? ≠ some '/' := by
  fun_induction trimBackwards rooted cs with
  | case1 rest ih => exact ih
  | case2 => simp
  | case3 => simp
  | case4 rest ih => exact ih
  | case5 s hslash =>
      cases s with
      | nil => simp
      | cons c rest =>
          rintro ⟨⟩
          exact hslash rest rfl

theorem withoutLastSlashes_parent {path outer : String} (h : parent? path = some outer) :
    Disk.withoutLastSlashes outer = outer := by
  rw [parent?] at h
  split at h
  · cases h
  next rooted cs _ _ =>
    have hhead := trimBackwards_head rooted (cs.dropWhile (· ≠ '/'))
    generalize trimBackwards rooted (cs.dropWhile (· ≠ '/')) = kept at h hhead
    obtain rfl := Option.some.inj h
    cases kept with
    | nil => cases rooted <;> rfl
    | cons c kept =>
        apply Disk.withoutLastSlashes_eq
        cases rooted with
        | true =>
            refine ⟨by simp, ?_⟩
            rw [if_pos rfl, String.toList_ofList, List.getLast?_cons, List.getLast?_reverse]
            simpa using hhead
        | false => exact ⟨by simp, by simpa using hhead⟩

end HostPath

namespace Disk

variable {d s : Disk} {path : String} {place place' : Location} {node : Node} {id : FileId}
  {followLast : Bool} {links : Nat} {here : Location} {pieces : List String}

/-- Paths as `parent?` gives them. -/
def Slashless (paths : List String) : Prop :=
  ∀ path ∈ paths, withoutLastSlashes path = path

theorem slashless_ancestorsFrom (fuel : Nat) (h : withoutLastSlashes path = path) :
    Slashless (HostPath.ancestorsFrom fuel path) := by
  induction fuel generalizing path with
  | zero => simpa [HostPath.ancestorsFrom, Slashless] using h
  | succ fuel ih =>
      rw [HostPath.ancestorsFrom]
      split
      · simpa [Slashless] using h
      next outer houter =>
        intro other hother
        rcases List.mem_cons.mp hother with rfl | hother
        · exact h
        · exact ih (HostPath.withoutLastSlashes_parent houter) other hother

theorem find_made (hd : d.Proper) (hpath : withoutLastSlashes path = path)
    (h : d.makeDirectory path = .ok s) :
    ∃ place, d.node? place = none ∧ s.find path = .ok (place, .directory) ∧
      ∀ other, other ≠ place → s.node? other = d.node? other := by
  unfold makeDirectory at h
  rw [hpath] at h
  split at h
  · cases h
  · cases h
  next location hlocate =>
    split at h
    · cases h
      obtain ⟨hnone, front, name, rfl, -⟩ := hd.locate_missing hlocate
      have hadmissible := admissible_of_locate hlocate
      rw [locate_eq hadmissible] at hlocate
      refine ⟨front ++ [name], hnone, find_eq_ok_iff.mpr ⟨hadmissible, ?_⟩, ?_⟩
      · apply Reaches.followed
        apply reaches_of_missing (extends_put hnone _) _ (by simp) hlocate
        rw [node?_put (by simp), if_pos rfl]
      · intro other hother
        rw [node?_put (by simp), if_neg hother]
    · cases h

/-- Where some of the outer directories need nothing, directories are only made where the inner
paths lead. -/
theorem makeDirectoriesFrom_added (hd : d.Proper) {inner outer : List String}
    (hinner : Slashless inner) (houter : (d.makeDirectoriesFrom outer).1 = d) :
    ∀ place, (d.makeDirectoriesFrom (inner ++ outer)).1.node? place = d.node? place ∨
      d.node? place = none ∧ ∃ path ∈ inner,
        (d.makeDirectoriesFrom (inner ++ outer)).1.find path = .ok (place, .directory) := by
  induction inner with
  | nil =>
      intro place
      rw [List.nil_append, houter]
      exact .inl rfl
  | cons path inner ih =>
      have hpath := hinner path (by simp)
      have hrest := ih fun other hother => hinner other (by simp [hother])
      have hgrown := makeDirectoriesFrom_grown hd (inner ++ outer)
      rw [List.cons_append, makeDirectoriesFrom]
      split
      · exact fun _ => .inl rfl
      · split
        next made hmade =>
          intro place
          obtain ⟨new, hnone, hfind, hother⟩ := find_made hd hpath hmade
          by_cases hplace : place = new
          · subst hplace
            exact .inr ⟨hnone, path, by simp, hfind⟩
          · exact .inl (hother place hplace)
        · rcases hmake : d.makeDirectoriesFrom (inner ++ outer) with ⟨s, result⟩
          rw [hmake] at hrest hgrown
          have hstays : ∀ place, s.node? place = d.node? place ∨ d.node? place = none ∧
              ∃ other ∈ path :: inner, s.find other = .ok (place, .directory) := by
            intro place
            rcases hrest place with hsame | ⟨hnone, other, hmem, hfind⟩
            · exact .inl hsame
            · exact .inr ⟨hnone, other, by simp [hmem], hfind⟩
          cases result with
          | error fault => exact hstays
          | ok =>
              dsimp only
              split
              next made hmade =>
                -- The outer directories stay when the one inside them is made.
                intro place
                obtain ⟨new, hnone, hfind, hother⟩ := find_made hgrown.proper hpath hmade
                by_cases hplace : place = new
                · subst hplace
                  refine .inr ⟨?_, path, by simp, hfind⟩
                  rw [Option.eq_none_iff_forall_ne_some]
                  intro node hnode
                  simp [hgrown.kept.node _ _ hnode] at hnone
                · rw [hother place hplace]
                  rcases hstays place with hsame | ⟨hmissing, other, hmem, hfound⟩
                  · exact .inl hsame
                  · exact .inr ⟨hmissing, other, hmem,
                      (makeDirectory_ok hgrown.proper hmade).kept.find hfound⟩
              · split <;> exact hstays
        · split <;> exact fun _ => .inl rfl

/-- What is reached with a new file somewhere is reached without it, as far as it was there. -/
theorem follow_of_created (hs : s.Created d place id)
    (h : Reaches s followLast links here pieces place' node) :
    d.follow followLast links here pieces = .ok ⟨place', d.node? place'⟩ := by
  have hkept : ∀ other kind, s.node? other = some kind → (∀ file, kind ≠ .file file) →
      d.node? other = some kind := by
    intro other kind hother hkind
    rw [← hs.other other, hother]
    rintro rfl
    exact hkind id (Option.some.inj (hother.symm.trans hs.node))
  induction h with
  | here => rw [follow]
  | still hpiece _ ih => rw [follow_still hpiece, ih]
  | up _ ih => rw [follow_up, ih]
  | directory hpiece hnode _ ih => rw [follow_name hpiece, hkept _ _ hnode (by simp), ← ih]
  | @file links here piece file hpiece hnode =>
      rw [follow_name hpiece]
      by_cases hplace : here ++ [piece] = place
      · rw [hplace]
        rcases hs.before with ⟨hnone, -⟩ | hold
        · simp [hnone]
        · simp [hold]
      · rw [hs.other _ hplace] at hnode
        simp [hnode]
  | link hlast hpiece hnode =>
      simp [follow_name hpiece, hkept _ _ hnode (by simp), hlast]
  | through hmore hpiece hnode _ ih =>
      rw [follow_through hmore hpiece (hkept _ _ hnode (by simp)), ih]

/-- Where the file at the end of a path was, there is nothing once its name is taken away. -/
theorem follow_erased (h : Reaches d followLast links here pieces place (.file id)) :
    (d.erase place).follow followLast links here pieces = .ok ⟨place, none⟩ := by
  have hplace := h.node?_eq
  have hne : place ≠ [] := ne_nil_of_node? (d := d) (by simp [hplace])
  have hways := keepsWays_erase hplace
  have hnone : (d.erase place).node? place = none := by rw [node?_erase hne, if_pos rfl]
  clear hplace hne
  generalize hkind : Node.file id = kind at h
  induction h with
  | here => rw [follow, hnone]
  | still hpiece _ ih => rw [follow_still hpiece, ih hways hnone hkind]
  | up _ ih => rw [follow_up, ih hways hnone hkind]
  | directory hpiece hnode _ ih =>
      rw [follow_name hpiece, hways _ _ hnode (by simp)]
      exact ih hways hnone hkind
  | file hpiece => simp [follow_name hpiece, hnone]
  | link => cases hkind
  | through hmore hpiece hnode _ ih =>
      rw [follow_through hmore hpiece (hways _ _ hnode (by simp)), ih hways hnone hkind]

theorem locate_of_created (hs : s.Created d place id)
    (h : s.locate path followLast = .ok ⟨place', some node⟩) :
    d.locate path followLast = .ok ⟨place', d.node? place'⟩ := by
  have hpath := admissible_of_locate h
  have hstart : s.start path = d.start path := by rw [start, start, hs.kept.workingDirectory]
  rw [locate_eq hpath] at h ⊢
  rw [← hstart]
  exact follow_of_created hs (reaches_of_follow h)

theorem removeFile_of_locate (h : d.locate path false = .ok ⟨place, some node⟩)
    (hnode : node ≠ .directory) :
    d.removeFile path =
      if d.rights.remove place then .ok (d.erase place) else .error .permissionDenied := by
  rw [removeFile, h]
  cases node with
  | file id => rfl
  | directory => exact absurd rfl hnode
  | link target => rfl

theorem locate_erased (h : d.locate path followLast = .ok ⟨place, some (.file id)⟩) :
    (d.erase place).locate path followLast = .ok ⟨place, none⟩ := by
  have hpath := admissible_of_locate h
  rw [locate_eq hpath] at h ⊢
  exact follow_erased (reaches_of_follow h)

end Disk

end ArchiveOverlay
