import ArchiveOverlay.Disk.Change
import Mathlib.Data.List.Basic

namespace ArchiveOverlay.Disk

section

variable {κ α : Type} [BEq κ] [LawfulBEq κ]

theorem lookup_cons_ne {key other : κ} (h : other ≠ key) (value : α) (row : List (κ × α)) :
    ((key, value) :: row).lookup other = row.lookup other := by
  have hbeq : (other == key) = false := by simpa using h
  rw [List.lookup_cons, hbeq]

theorem mem_keys_of_lookup {key : κ} {row : List (κ × α)} (h : row.lookup key ≠ none) :
    key ∈ row.map Prod.fst := by
  induction row with
  | nil => exact absurd rfl h
  | cons first row ih =>
      rcases first with ⟨other, value⟩
      rw [List.map_cons, List.mem_cons]
      by_cases hkey : key = other
      · exact .inl hkey
      · rw [lookup_cons_ne hkey] at h
        exact .inr (ih h)

theorem mem_of_lookup {key : κ} {value : α} {row : List (κ × α)}
    (h : row.lookup key = some value) :
    (key, value) ∈ row := by
  induction row with
  | nil => cases h
  | cons first row ih =>
      rcases first with ⟨other, found⟩
      by_cases hkey : key = other
      · subst hkey
        rw [List.lookup_cons_self, Option.some.injEq] at h
        simp [h]
      · rw [lookup_cons_ne hkey] at h
        exact List.mem_cons_of_mem _ (ih h)

theorem lookup_assign [DecidableEq κ] (key other : κ) (value : α) (row : List (κ × α)) :
    (assign key value row).lookup other =
      if other = key then some value else row.lookup other := by
  induction row with
  | nil =>
      rw [assign]
      by_cases h : other = key
      · simp [h]
      · rw [lookup_cons_ne h, if_neg h]
  | cons first row ih =>
      rcases first with ⟨found, old⟩
      rw [assign]
      by_cases hkey : found = key
      · subst hkey
        by_cases h : other = found
        · simp [h]
        · rw [if_pos rfl, lookup_cons_ne h, if_neg h, lookup_cons_ne h]
      · rw [if_neg hkey]
        by_cases h : other = found
        · subst h
          simp [hkey]
        · rw [lookup_cons_ne h, ih, lookup_cons_ne h]

end

theorem mem_places_of_node? {d : Disk} {place : Location} (hplace : place ≠ [])
    (h : d.node? place ≠ none) : place ∈ d.nodes.map Prod.fst := by
  rw [node?, if_neg hplace] at h
  exact mem_keys_of_lookup h

theorem node?_put {d : Disk} {place : Location} (hplace : place ≠ []) (node : Node)
    (other : Location) :
    (d.put place node).node? other = if other = place then some node else d.node? other := by
  by_cases hroot : other = []
  · subst hroot
    simp [node?, Ne.symm hplace]
  · simp [node?, put, hroot, lookup_assign]

theorem lookup_filter_ne (place other : Location) (nodes : List (Location × Node)) :
    (nodes.filter fun (key, _) => key ≠ place).lookup other =
      if other = place then none else nodes.lookup other := by
  induction nodes with
  | nil => simp
  | cons first nodes ih =>
      rcases first with ⟨key, old⟩
      by_cases hkey : key = place
      · subst hkey
        rw [List.filter_cons_of_neg (by simp), ih]
        by_cases h : other = key
        · simp [h]
        · rw [lookup_cons_ne h]
      · rw [List.filter_cons_of_pos (by simpa using hkey)]
        by_cases h : other = key
        · subst h
          simp [hkey]
        · rw [lookup_cons_ne h, ih, lookup_cons_ne h]

theorem node?_erase {d : Disk} {place : Location} (hplace : place ≠ []) (other : Location) :
    (d.erase place).node? other = if other = place then none else d.node? other := by
  by_cases hroot : other = []
  · subst hroot
    simp [node?, Ne.symm hplace]
  · simp only [node?, erase, if_neg hroot]
    exact lookup_filter_ne place other d.nodes

section Files

variable (d : Disk) (id : FileId) (content : ByteArray)

@[simp]
theorem node?_write (place : Location) : (d.write id content).node? place = d.node? place := by
  cases id <;> rfl

@[simp]
theorem nodes_write : (d.write id content).nodes = d.nodes := by
  cases id <;> rfl

@[simp]
theorem workingDirectory_write : (d.write id content).workingDirectory = d.workingDirectory := by
  cases id <;> rfl

@[simp]
theorem rights_write : (d.write id content).rights = d.rights := by
  cases id <;> rfl

variable {id}

theorem content_write_of_ne {other : FileId} (h : other ≠ id) :
    (d.write id content).content other = d.content other := by
  cases id with
  | null => rfl
  | regular number =>
      cases other with
      | null => rfl
      | regular found =>
          have hne : found ≠ number := fun heq => h (by rw [heq])
          simp [write, Disk.content, lookup_assign, hne]

/-- What is written to a file is in it, unless the file is the special one. -/
theorem content_write (h : id ≠ .null) : (d.write id content).content id = content := by
  cases id with
  | null => exact absurd rfl h
  | regular number => simp [write, Disk.content, lookup_assign]

end Files

theorem lt_freeBound {numbers : List Nat} {number : Nat} (h : number ∈ numbers) :
    number < numbers.foldr (fun number bound => max (number + 1) bound) 0 := by
  induction numbers with
  | nil => cases h
  | cons first numbers ih =>
      rw [List.foldr_cons]
      rcases List.mem_cons.mp h with rfl | h
      · exact Nat.lt_of_lt_of_le (Nat.lt_succ_self _) (Nat.le_max_left _ _)
      · exact Nat.lt_of_lt_of_le (ih h) (Nat.le_max_right _ _)

/-- A file that has a name is not the one that is made next. -/
theorem ne_freeNumber {d : Disk} {place : Location} {id : FileId}
    (h : d.node? place = some (.file id)) : id ≠ .regular d.freeNumber := by
  rintro rfl
  have hplace : place ≠ [] := by
    rintro rfl
    simp [node?] at h
  rw [node?, if_neg hplace] at h
  have hlt : d.freeNumber < d.freeNumber := by
    nth_rewrite 2 [freeNumber]
    apply lt_freeBound
    rw [List.mem_append, List.mem_filterMap]
    exact .inl ⟨_, mem_of_lookup h, rfl⟩
  exact absurd hlt (Nat.lt_irrefl _)

section NewFile

variable {d : Disk} {place : Location}

theorem node?_putFile (hplace : place ≠ []) (other : Location) :
    (d.putFile place).node? other =
      if other = place then some (.file (.regular d.freeNumber)) else d.node? other := by
  rw [putFile, node?_write, node?_put hplace]

theorem content_putFile {id : FileId} (h : id ≠ .regular d.freeNumber) :
    (d.putFile place).content id = d.content id := by
  rw [putFile, content_write_of_ne _ _ h]
  cases id <;> rfl

end NewFile

theorem content?_eq_some_iff {d : Disk} {place : Location} {content : ByteArray} :
    d.content? place = some content ↔
      ∃ id, d.node? place = some (.file id) ∧ d.content id = content := by
  rw [content?]
  cases d.node? place with
  | none => simp
  | some node => cases node <;> simp [nodeContent?]

theorem content?_congr {d s : Disk} {place : Location} (hnode : s.node? place = d.node? place)
    (hcontent : ∀ id, d.node? place = some (.file id) → s.content id = d.content id) :
    s.content? place = d.content? place := by
  rw [content?, content?, hnode]
  cases hfound : d.node? place with
  | none => rfl
  | some node =>
      cases node with
      | file id => exact congrArg some (hcontent id hfound)
      | directory => rfl
      | link target => rfl

theorem content?_erase {d : Disk} {place : Location} (hplace : place ≠ []) (other : Location) :
    (d.erase place).content? other = if other = place then none else d.content? other := by
  split
  next heq => rw [content?, node?_erase hplace, if_pos heq, Option.bind_none]
  next hother =>
    apply content?_congr
    · rw [node?_erase hplace, if_neg hother]
    · exact fun _ _ => rfl

theorem content?_putFile {d : Disk} {place : Location} (hplace : place ≠ []) (other : Location) :
    (d.putFile place).content? other =
      if other = place then some .empty else d.content? other := by
  split
  next heq =>
    subst heq
    refine content?_eq_some_iff.mpr ⟨.regular d.freeNumber, ?_, content_write _ _ (by simp)⟩
    rw [node?_putFile hplace, if_pos rfl]
  next hother =>
    apply content?_congr
    · rw [node?_putFile hplace, if_neg hother]
    · exact fun id hid => content_putFile (ne_freeNumber hid)

/-- What is written to a new file shows in its place, and nowhere else. -/
theorem content?_newFile {d : Disk} {place : Location} (hplace : place ≠ []) (content : ByteArray)
    (other : Location) :
    ((d.putFile place).write (.regular d.freeNumber) content).content? other =
      if other = place then some content else d.content? other := by
  split
  next heq =>
    subst heq
    refine content?_eq_some_iff.mpr ⟨.regular d.freeNumber, ?_, content_write _ _ (by simp)⟩
    rw [node?_write, node?_putFile hplace, if_pos rfl]
  next hother =>
    apply content?_congr
    · rw [node?_write, node?_putFile hplace, if_neg hother]
    · intro id hid
      rw [content_write_of_ne _ _ (ne_freeNumber hid), content_putFile (ne_freeNumber hid)]

theorem content?_of_node? {d : Disk} {place : Location} {id : FileId}
    (h : d.node? place = some (.file id)) : d.content? place = some (d.content id) :=
  content?_eq_some_iff.mpr ⟨id, h, rfl⟩

end ArchiveOverlay.Disk
