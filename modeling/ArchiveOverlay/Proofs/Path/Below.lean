import ArchiveOverlay.Proofs.Archive.Entries

namespace ArchiveOverlay

theorem pieces_append_pieces (cs rest : List Char) {separator : Char}
    (hseparator : isSeparator separator = true) :
    pieces (cs ++ separator :: rest) = pieces cs ++ pieces rest := by
  induction cs with
  | nil => simp [pieces, hseparator]
  | cons c cs ih =>
      rw [List.cons_append, pieces, pieces, ih]
      split
      · rfl
      · obtain ⟨piece, more, hpieces⟩ := List.exists_cons_of_ne_nil (pieces_ne_nil cs)
        rw [hpieces]
        rfl

theorem intercalate_append {separator : String} {front back : List String} (hfront : front ≠ [])
    (hback : back ≠ []) :
    separator.intercalate (front ++ back) =
      separator.intercalate front ++ separator ++ separator.intercalate back := by
  induction front with
  | nil => exact absurd rfl hfront
  | cons s front ih =>
      cases front with
      | nil =>
          obtain ⟨next, rest, rfl⟩ := List.exists_cons_of_ne_nil hback
          rw [List.singleton_append, String.intercalate_cons_cons, String.intercalate_singleton]
      | cons next front =>
          rw [List.cons_append, List.cons_append, String.intercalate_cons_cons,
            ← List.cons_append, ih (by simp), String.intercalate_cons_cons]
          simp only [String.append_assoc]

namespace Path

variable {p q dir : Path}

theorem eq_of_segments (h : p.segments = q.segments) : p = q := by
  rcases p with ⟨segments⟩
  rcases q with ⟨segments'⟩
  exact congrArg Path.mk h

theorem isRoot_iff : p.isRoot = true ↔ p = .root := by
  rcases p with ⟨segments⟩
  simp [isRoot, root]

theorem pieces_text (h : p.Canonical) (hroot : p ≠ .root) :
    (pieces p.text.toList).map String.ofList = p.segments := by
  have hne : p.segments ≠ [] := fun hnil => hroot (eq_of_segments hnil)
  exact pieces_intercalate hne fun s hs c hc => ((h s hs).1.plain c hc).1

/-- The text of a path tells all of it. -/
theorem text_injective (hp : p.Canonical) (hq : q.Canonical) (h : p.text = q.text) : p = q := by
  have hparse := parse_text hp
  rw [h, parse_text hq] at hparse
  exact (Except.ok.inj hparse).symm

theorem IsAbove.ne_root (h : dir.IsAbove p) : p ≠ .root := by
  rintro rfl
  obtain ⟨key, rest, hsegments⟩ := h
  simp [root] at hsegments

theorem IsAbove.trans (hdir : dir.IsAbove p) (hp : p.IsAbove q) : dir.IsAbove q := by
  obtain ⟨key, rest, hsegments⟩ := hdir
  obtain ⟨next, rest', hsegments'⟩ := hp
  exact ⟨key, rest ++ next :: rest', by rw [hsegments', hsegments]; simp⟩

theorem isAbove_child (dir : Path) (key : String) : dir.IsAbove (dir.child key) :=
  ⟨key, [], rfl⟩

/-- A path below a directory is one of its members or lies below one. -/
theorem IsAbove.cases (h : dir.IsAbove p) :
    ∃ key, p = dir.child key ∨ (dir.child key).IsAbove p := by
  obtain ⟨key, rest, hsegments⟩ := h
  cases rest with
  | nil => exact ⟨key, .inl (eq_of_segments hsegments)⟩
  | cons next rest => exact ⟨key, .inr ⟨next, rest, by rw [hsegments]; simp [child]⟩⟩

theorem text_of_isAbove {key : String} {rest : List String} (hroot : dir ≠ .root)
    (h : p.segments = dir.segments ++ key :: rest) :
    p.text = dir.text ++ "/" ++ "/".intercalate (key :: rest) := by
  have hne : dir.segments ≠ [] := fun hnil => hroot (eq_of_segments hnil)
  rw [text, text, h, intercalate_append hne (by simp)]

/-- The text of a directory and a slash begin just the texts of the paths below it. -/
theorem isBelow_iff (hp : p.Canonical) (hdir : dir.Canonical) :
    p.isBelow dir = true ↔ dir.IsAbove p := by
  by_cases hroot : dir = .root
  · subst hroot
    constructor
    · intro h
      have hne : p.segments ≠ [] := by simpa [isBelow, isRoot, root] using h
      obtain ⟨key, rest, hsegments⟩ := List.exists_cons_of_ne_nil hne
      exact ⟨key, rest, by simpa [root] using hsegments⟩
    · intro h
      rw [isBelow, if_pos (isRoot_iff.mpr rfl), Bool.not_eq_true', ← Bool.not_eq_true, isRoot_iff]
      exact h.ne_root
  · rw [isBelow, if_neg (mt isRoot_iff.mp hroot), List.isPrefixOf_iff_prefix]
    constructor
    · rintro ⟨rest, htext⟩
      rw [List.append_assoc, List.singleton_append] at htext
      -- The slash after the directory's text is a place where the text of the path is cut.
      have hne : p ≠ .root := by
        rintro rfl
        simp [root, text] at htext
      have hsegments : p.segments = dir.segments ++ (pieces rest).map String.ofList := by
        rw [← pieces_text hp hne, ← htext, pieces_append_pieces _ _ rfl, List.map_append,
          pieces_text hdir hroot]
      obtain ⟨piece, more, hpieces⟩ := List.exists_cons_of_ne_nil (pieces_ne_nil rest)
      rw [hpieces] at hsegments
      exact ⟨_, _, hsegments⟩
    · rintro ⟨key, rest, hsegments⟩
      refine ⟨("/".intercalate (key :: rest)).toList, ?_⟩
      rw [text_of_isAbove hroot hsegments, String.toList_append, String.toList_append]
      rfl

theorem canonical_root : root.Canonical := by
  intro s hs
  cases hs

/-- A directory comes before all that lies below it. -/
theorem text_lt_of_isAbove (hp : p.Canonical) (h : dir.IsAbove p) : dir.text < p.text := by
  rw [String.lt_iff_toList_lt]
  by_cases hroot : dir = .root
  · subst hroot
    have hne : p.text.toList ≠ [] := by
      intro hnil
      have htext : p.text = root.text := String.toList_inj.mp hnil
      exact h.ne_root (text_injective hp canonical_root htext)
    obtain ⟨c, cs, hcs⟩ := List.exists_cons_of_ne_nil hne
    rw [hcs]
    exact List.nil_lt_cons _ _
  · obtain ⟨key, rest, hsegments⟩ := h
    rw [text_of_isAbove hroot hsegments, String.toList_append, String.toList_append,
      List.append_assoc]
    conv_lhs => rw [← List.append_nil dir.text.toList]
    exact List.append_left_lt (List.nil_lt_cons _ _)

end Path

end ArchiveOverlay
