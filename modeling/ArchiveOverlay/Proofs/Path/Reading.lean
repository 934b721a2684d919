import ArchiveOverlay.Path
import ArchiveOverlay.Proofs.Text.Lowercase

namespace ArchiveOverlay

/-- A segment that stands for itself in any path. -/
structure Ordinary (s : String) : Prop where
  ne_empty : s ≠ ""
  ne_dot : s ≠ "."
  ne_dots : s ≠ ".."
  plain : ∀ c ∈ s.toList, isSeparator c = false ∧ c ≠ '\x00'

theorem pieces_ne_nil (cs : List Char) : pieces cs ≠ [] := by
  cases cs with
  | nil => simp [pieces]
  | cons c cs =>
      rw [pieces]
      split
      · simp
      · split <;> simp

theorem pieces_of_plain {cs : List Char} (h : ∀ c ∈ cs, isSeparator c = false) :
    pieces cs = [cs] := by
  induction cs with
  | nil => rfl
  | cons c cs ih =>
      rw [pieces, h c (by simp), ih fun d hd => h d (by simp [hd])]
      rfl

theorem pieces_append {cs : List Char} (h : ∀ c ∈ cs, isSeparator c = false) {separator : Char}
    (hseparator : isSeparator separator = true) (rest : List Char) :
    pieces (cs ++ separator :: rest) = cs :: pieces rest := by
  induction cs with
  | nil => simp [pieces, hseparator]
  | cons c cs ih =>
      rw [List.cons_append, pieces, h c (by simp), ih fun d hd => h d (by simp [hd])]
      rfl

theorem pieces_plain {cs piece : List Char} (h : piece ∈ pieces cs) :
    ∀ c ∈ piece, c ∈ cs ∧ isSeparator c = false := by
  induction cs generalizing piece with
  | nil =>
      rw [pieces, List.mem_singleton] at h
      simp [h]
  | cons first cs ih =>
      intro c hc
      rw [pieces] at h
      split at h
      · rcases List.mem_cons.mp h with rfl | h
        · cases hc
        · obtain ⟨hmem, hplain⟩ := ih h c hc
          exact ⟨by simp [hmem], hplain⟩
      next hfirst =>
        split at h
        next hnil => exact absurd hnil (pieces_ne_nil cs)
        next next more hpieces =>
          rw [hpieces] at ih
          rcases List.mem_cons.mp h with rfl | h
          · rcases List.mem_cons.mp hc with rfl | hc
            · exact ⟨by simp, by simpa using hfirst⟩
            · obtain ⟨hmem, hplain⟩ := ih (List.mem_cons_self ..) c hc
              exact ⟨by simp [hmem], hplain⟩
          · obtain ⟨hmem, hplain⟩ := ih (List.mem_cons_of_mem _ h) c hc
            exact ⟨by simp [hmem], hplain⟩

/-- Reading a row of texts with slashes between them gives the texts back. -/
theorem pieces_intercalate {segments : List String} (hne : segments ≠ [])
    (h : ∀ s ∈ segments, ∀ c ∈ s.toList, isSeparator c = false) :
    (pieces ("/".intercalate segments).toList).map String.ofList = segments := by
  induction segments with
  | nil => exact absurd rfl hne
  | cons s segments ih =>
      have hs := h s (by simp)
      cases segments with
      | nil =>
          rw [String.intercalate_singleton, pieces_of_plain hs]
          simp
      | cons next segments =>
          have hjoin : ("/".intercalate (s :: next :: segments)).toList =
              s.toList ++ '/' :: ("/".intercalate (next :: segments)).toList := by
            rw [String.intercalate_cons_cons]
            simp
          rw [hjoin, pieces_append hs rfl, List.map_cons, String.ofList_toList,
            ih (by simp) fun t ht => h t (by simp [ht])]

theorem pushPiece_ordinary {s : String} (h : Ordinary s) (segments : List String) :
    pushPiece segments s = some (s :: segments) := by
  simp [pushPiece, h.ne_empty, h.ne_dot, h.ne_dots]

theorem foldlM_pushPiece {row : List String} (h : ∀ s ∈ row, Ordinary s)
    (segments : List String) :
    row.foldlM pushPiece segments = some (row.reverse ++ segments) := by
  induction row generalizing segments with
  | nil => rfl
  | cons s row ih =>
      rw [List.foldlM_cons, pushPiece_ordinary (h s (by simp))]
      change row.foldlM pushPiece (s :: segments) = _
      rw [ih fun t ht => h t (by simp [ht])]
      simp

theorem normalize_ordinary {row : List String} (h : ∀ s ∈ row, Ordinary s) :
    normalize row = some row := by
  rw [normalize, foldlM_pushPiece h]
  simp

theorem ordinary_of_pushPiece {segments segments' : List String} {piece : String}
    (hpiece : ∀ c ∈ piece.toList, isSeparator c = false ∧ c ≠ '\x00')
    (hsegments : ∀ s ∈ segments, Ordinary s) (h : pushPiece segments piece = some segments') :
    ∀ s ∈ segments', Ordinary s := by
  unfold pushPiece at h
  split at h
  · cases h
    exact hsegments
  next hkeep =>
    split at h
    next hdots =>
      cases segments with
      | nil => cases h
      | cons last outer =>
          cases h
          exact fun s hs => hsegments s (by simp [hs])
    next hdots =>
      cases h
      intro s hs
      rcases List.mem_cons.mp hs with rfl | hs
      · exact ⟨fun he => hkeep (.inl he), fun he => hkeep (.inr he), hdots, hpiece⟩
      · exact hsegments s hs

theorem ordinary_of_foldlM {row segments segments' : List String}
    (hrow : ∀ piece ∈ row, ∀ c ∈ piece.toList, isSeparator c = false ∧ c ≠ '\x00')
    (hsegments : ∀ s ∈ segments, Ordinary s)
    (h : row.foldlM pushPiece segments = some segments') : ∀ s ∈ segments', Ordinary s := by
  induction row generalizing segments with
  | nil =>
      cases h
      exact hsegments
  | cons piece row ih =>
      rw [List.foldlM_cons] at h
      obtain ⟨pushed, hpush, h⟩ := Option.bind_eq_some_iff.mp h
      have hpushed := ordinary_of_pushPiece (hrow piece (by simp)) hsegments hpush
      exact ih (fun other hother => hrow other (by simp [hother])) hpushed h

theorem nul_not_mem_intercalate {segments : List String} (h : ∀ s ∈ segments, Ordinary s) :
    '\x00' ∉ ("/".intercalate segments).toList := by
  induction segments with
  | nil => simp
  | cons s segments ih =>
      have hs : '\x00' ∉ s.toList := fun hmem => ((h s (by simp)).plain _ hmem).2 rfl
      cases segments with
      | nil => simpa using hs
      | cons next segments =>
          have hrest := ih fun t ht => h t (by simp [ht])
          rw [String.intercalate_cons_cons, String.toList_append, String.toList_append]
          simp only [List.mem_append, not_or]
          exact ⟨⟨hs, by decide⟩, hrest⟩

namespace DisplayPath

theorem ordinary_of_parse {raw : String} {p : DisplayPath} (h : parse raw = .ok p) :
    ∀ s ∈ p.segments, Ordinary s := by
  unfold parse at h
  split at h
  · cases h
  next hnul =>
    split at h
    · cases h
    next segments hnormalize =>
      cases h
      obtain ⟨reversed, hfold, rfl⟩ := Option.map_eq_some_iff.mp hnormalize
      have hpieces : ∀ piece ∈ (pieces raw.toList).map String.ofList,
          ∀ c ∈ piece.toList, isSeparator c = false ∧ c ≠ '\x00' := by
        intro piece hpiece c hc
        obtain ⟨cs, hcs, rfl⟩ := List.mem_map.mp hpiece
        rw [String.toList_ofList] at hc
        obtain ⟨hmem, hplain⟩ := pieces_plain hcs c hc
        exact ⟨hplain, fun heq => hnul (heq ▸ hmem)⟩
      have hall := ordinary_of_foldlM hpieces (by simp) hfold
      intro s hs
      exact hall s (List.mem_reverse.mp hs)

/-- The text of ordinary segments reads back as these segments. -/
theorem parse_intercalate {segments : List String} (h : ∀ s ∈ segments, Ordinary s) :
    parse ("/".intercalate segments) = .ok ⟨segments⟩ := by
  have hnormalize :
      normalize ((pieces ("/".intercalate segments).toList).map String.ofList) =
        some segments := by
    cases segments with
    | nil =>
        -- The empty text is one piece, the empty one, and that is left out.
        rfl
    | cons s segments =>
        rw [pieces_intercalate (by simp) fun t ht c hc => ((h t ht).plain c hc).1]
        exact normalize_ordinary h
  rw [parse, if_neg (nul_not_mem_intercalate h), hnormalize]

end DisplayPath

theorem Ordinary.lowercase {s : String} (h : Ordinary s) : Ordinary (Text.lowercase s) where
  ne_empty := fun he => h.ne_empty (Text.lowercase_eq_empty_iff.mp he)
  ne_dot := fun he => h.ne_dot (by
    rw [← Text.eq_of_lowercase_dots (s := s) (by simp [he]), he])
  ne_dots := fun he => h.ne_dots (by
    rw [← Text.eq_of_lowercase_dots (s := s) (by simp [he]), he])
  plain := by
    intro c hc
    constructor
    · by_contra hseparator
      have hmark : Text.isMark c = true := by
        rw [Bool.not_eq_false] at hseparator
        unfold Text.isMark
        simp only [isSeparator, Bool.or_eq_true] at hseparator ⊢
        exact Or.inl (Or.inl hseparator)
      exact hseparator (h.plain c (Text.mark_of_mem_lowercase hmark hc)).1
    · rintro rfl
      exact (h.plain _ (Text.mark_of_mem_lowercase (by decide) hc)).2 rfl

namespace Path

/-- A path that reading can give. -/
def Canonical (p : Path) : Prop :=
  ∀ s ∈ p.segments, Ordinary s ∧ Text.lowercase s = s

theorem canonical_ofDisplay {p : DisplayPath} (h : ∀ s ∈ p.segments, Ordinary s) :
    (ofDisplay p).Canonical := by
  intro s hs
  obtain ⟨t, ht, rfl⟩ := List.mem_map.mp hs
  exact ⟨(h t ht).lowercase, Text.lowercase_lowercase t⟩

theorem canonical_of_parse {raw : String} {p : Path} (h : parse raw = .ok p) : p.Canonical := by
  unfold parse at h
  cases hdisplay : DisplayPath.parse raw with
  | error fault => simp [hdisplay, Except.map] at h
  | ok display =>
      rw [hdisplay] at h
      cases h
      exact canonical_ofDisplay (DisplayPath.ordinary_of_parse hdisplay)

/-- The text of a path reads back as the path. -/
theorem parse_text {p : Path} (h : p.Canonical) : parse p.text = .ok p := by
  have hlower : p.segments.map Text.lowercase = p.segments := by
    calc
      p.segments.map Text.lowercase = p.segments.map id :=
        List.map_congr_left fun s hs => (h s hs).2
      _ = p.segments := List.map_id _
  rw [parse, text, DisplayPath.parse_intercalate fun s hs => (h s hs).1]
  simp [Except.map, ofDisplay, hlower]

end Path

end ArchiveOverlay
