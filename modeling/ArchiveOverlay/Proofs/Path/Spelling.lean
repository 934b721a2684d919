import ArchiveOverlay.Proofs.Path.Below
import ArchiveOverlay.Proofs.Text.Casing

namespace ArchiveOverlay

theorem breaks_of_isSeparator {c : Char} (h : isSeparator c = true) : Text.Breaks c := by
  have hslashes : c = '/' ∨ c = '\\' := by simpa [isSeparator] using h
  rcases hslashes with rfl | rfl
  · exact ⟨by decide +kernel, by decide +kernel⟩
  · exact ⟨by decide +kernel, by decide +kernel⟩

/-- What holds of texts without separators, and is kept by putting one and such a text in front,
holds of all texts. -/
theorem pieces_induction {P : List Char → Prop}
    (plain : ∀ cs, (∀ c ∈ cs, isSeparator c = false) → P cs)
    (split : ∀ cs c rest, (∀ d ∈ cs, isSeparator d = false) → isSeparator c = true → P rest →
      P (cs ++ c :: rest))
    (cs : List Char) : P cs := by
  induction hlength : cs.length using Nat.strong_induction_on generalizing cs with
  | h length ih =>
      cases hfind : cs.find? isSeparator with
      | none => exact plain cs (by simpa using hfind)
      | some c =>
          obtain ⟨hc, front, rest, rfl, hfront⟩ := List.find?_eq_some_iff_append.mp hfind
          refine split front c rest (by simpa using hfront) hc (ih rest.length ?_ rest rfl)
          rw [← hlength, List.length_append, List.length_cons]
          omega

theorem isMark_of_isSeparator {c : Char} (h : isSeparator c = true) : Text.isMark c = true := by
  simp only [isSeparator, Bool.or_eq_true] at h
  simp only [Text.isMark, Bool.or_eq_true]
  exact .inl (.inl h)

theorem plain_lowerFrom {cs : List Char} (h : ∀ c ∈ cs, isSeparator c = false)
    (afterCased : Bool) :
    ∀ d ∈ Text.lowerFrom afterCased cs, isSeparator d = false := by
  intro d hd
  by_contra hseparator
  rw [Bool.not_eq_false] at hseparator
  obtain ⟨c, hc, -, hmark⟩ := Text.mem_lowerFrom hd
  rw [hmark (isMark_of_isSeparator hseparator), h c hc] at hseparator
  cases hseparator

/-- A whole text is lowered piece by piece. -/
theorem pieces_lowerFrom (cs : List Char) :
    pieces (Text.lowerFrom false cs) = (pieces cs).map (Text.lowerFrom false) := by
  induction cs using pieces_induction with
  | plain cs h =>
    rw [pieces_of_plain h, pieces_of_plain (plain_lowerFrom h false), List.map_singleton]
  | split cs c rest h hc ih =>
      rw [Text.lowerFrom_append (breaks_of_isSeparator hc),
        pieces_append (plain_lowerFrom h false) hc, ih, pieces_append h hc, List.map_cons]

theorem pieces_lowercase (raw : String) :
    (pieces (Text.lowercase raw).toList).map String.ofList =
      ((pieces raw.toList).map String.ofList).map Text.lowercase := by
  rw [Text.lowercase, String.toList_ofList, pieces_lowerFrom, List.map_map, List.map_map]
  apply List.map_congr_left
  intro piece _
  rw [Function.comp_apply, Function.comp_apply, Text.lowercase, String.toList_ofList]

theorem lowercase_eq_dots_iff {s dots : String} (h : ∀ d ∈ dots.toList, d = '.') :
    Text.lowercase s = dots ↔ s = dots := by
  constructor
  · rintro rfl
    exact (Text.eq_of_lowercase_dots h).symm
  · rintro rfl
    rw [Text.lowercase, Text.lowerFrom_eq_self, String.ofList_toList]
    intro c hc
    rw [h c hc]
    decide +kernel

/-- Small letters take the same steps through a path. -/
theorem pushPiece_lowercase (segments : List String) (piece : String) :
    pushPiece (segments.map Text.lowercase) (Text.lowercase piece) =
      (pushPiece segments piece).map (List.map Text.lowercase) := by
  have hdot : Text.lowercase piece = "." ↔ piece = "." := lowercase_eq_dots_iff (by simp)
  have hdots : Text.lowercase piece = ".." ↔ piece = ".." := lowercase_eq_dots_iff (by simp)
  simp only [pushPiece, Text.lowercase_eq_empty_iff, hdot, hdots]
  split
  · rfl
  · split
    · cases segments <;> rfl
    · rfl

theorem foldlM_pushPiece_lowercase (row segments : List String) :
    (row.map Text.lowercase).foldlM pushPiece (segments.map Text.lowercase) =
      (row.foldlM pushPiece segments).map (List.map Text.lowercase) := by
  induction row generalizing segments with
  | nil => rfl
  | cons piece row ih =>
      rw [List.map_cons, List.foldlM_cons, pushPiece_lowercase, List.foldlM_cons]
      cases pushPiece segments piece with
      | none => rfl
      | some pushed => exact ih pushed

theorem normalize_lowercase (row : List String) :
    normalize (row.map Text.lowercase) = (normalize row).map (List.map Text.lowercase) := by
  have hfold := foldlM_pushPiece_lowercase row []
  rw [List.map_nil] at hfold
  rw [normalize, normalize, hfold, Option.map_map, Option.map_map]
  congr 1
  funext segments
  exact List.map_reverse.symm

theorem nul_mem_lowercase (raw : String) :
    '\x00' ∈ (Text.lowercase raw).toList ↔ '\x00' ∈ raw.toList := by
  constructor
  · exact Text.mark_of_mem_lowercase (by decide)
  · intro h
    have hbreaks : Text.Breaks '\x00' := ⟨by decide +kernel, by decide +kernel⟩
    obtain ⟨front, rest, hraw⟩ := List.append_of_mem h
    rw [Text.lowercase, String.toList_ofList, hraw, Text.lowerFrom_append hbreaks]
    simp

theorem DisplayPath.parse_lowercase (raw : String) :
    parse (Text.lowercase raw) = (parse raw).map fun p => ⟨p.segments.map Text.lowercase⟩ := by
  rw [parse, parse, pieces_lowercase, normalize_lowercase]
  by_cases hnul : '\x00' ∈ raw.toList
  · rw [if_pos hnul, if_pos ((nul_mem_lowercase raw).mpr hnul)]
    rfl
  · rw [if_neg hnul, if_neg (mt (nul_mem_lowercase raw).mp hnul)]
    cases normalize ((pieces raw.toList).map String.ofList) <;> rfl

/-- A text in small letters names the same path. -/
theorem Path.parse_lowercase (raw : String) : parse (Text.lowercase raw) = parse raw := by
  rw [parse, parse, DisplayPath.parse_lowercase]
  cases DisplayPath.parse raw with
  | error fault => rfl
  | ok p =>
      have htwice : (p.segments.map Text.lowercase).map Text.lowercase =
          p.segments.map Text.lowercase := by
        rw [List.map_map]
        exact List.map_congr_left fun s _ => Text.lowercase_lowercase s
      rw [Except.map, Except.map, Except.map, ofDisplay, ofDisplay, htwice]

/-- A text with all its separators written as slashes. -/
def withSlashes (cs : List Char) : List Char :=
  cs.map fun c => if isSeparator c then '/' else c

theorem isSeparator_withSlashes (c : Char) :
    isSeparator (if isSeparator c then '/' else c) = isSeparator c := by
  by_cases h : isSeparator c = true
  · rw [if_pos h, h]
    rfl
  · rw [if_neg h]

theorem pieces_withSlashes (cs : List Char) : pieces (withSlashes cs) = pieces cs := by
  induction cs with
  | nil => rfl
  | cons c cs ih =>
      rw [withSlashes, List.map_cons, pieces, isSeparator_withSlashes, pieces]
      split
      · rw [← withSlashes, ih]
      · rw [← withSlashes, ih]

theorem nul_mem_withSlashes {cs : List Char} : '\x00' ∈ withSlashes cs ↔ '\x00' ∈ cs := by
  rw [withSlashes, List.mem_map]
  constructor
  · rintro ⟨c, hc, heq⟩
    split at heq
    · exact absurd heq (by decide)
    · exact heq ▸ hc
  · intro h
    exact ⟨_, h, by decide⟩

theorem Path.parse_withSlashes (raw : String) :
    parse (String.ofList (withSlashes raw.toList)) = parse raw := by
  rw [parse, DisplayPath.parse, String.toList_ofList, pieces_withSlashes, parse, DisplayPath.parse]
  simp only [nul_mem_withSlashes]

theorem startsCased_withSlashes (cs : List Char) :
    Text.startsCased (withSlashes cs) = Text.startsCased cs := by
  induction cs with
  | nil => rfl
  | cons c cs ih =>
      rw [withSlashes, List.map_cons, ← withSlashes, Text.startsCased_cons,
        ih, Text.startsCased_cons]
      by_cases hc : isSeparator c = true
      · rw [if_pos hc, (breaks_of_isSeparator hc).caseClass_eq,
          (breaks_of_isSeparator rfl).caseClass_eq]
      · rw [if_neg hc]

theorem getElem?_withSlashes {cs : List Char} {n : Nat} {c : Char} (hc : isSeparator c = false) :
    (withSlashes cs)[n]? = some c ↔ cs[n]? = some c := by
  rw [withSlashes, List.getElem?_map, Option.map_eq_some_iff]
  constructor
  · rintro ⟨d, hd, heq⟩
    split at heq
    · subst heq
      cases hc
    · rw [hd, heq]
  · intro h
    exact ⟨c, h, by rw [hc]; rfl⟩

theorem finalSigma_withSlashes {cs : List Char} {n : Nat} :
    Text.FinalSigma [] (withSlashes cs) n ↔ Text.FinalSigma [] cs n := by
  have htake : (withSlashes cs).take n = withSlashes (cs.take n) := List.map_take.symm
  have hdrop : (withSlashes cs).drop (n + 1) = withSlashes (cs.drop (n + 1)) := List.map_drop.symm
  have hreverse : (withSlashes (cs.take n)).reverse = withSlashes (cs.take n).reverse :=
    List.map_reverse.symm
  rw [Text.FinalSigma, getElem?_withSlashes (by decide), getElem?_withSlashes (by decide), htake,
    hdrop, hreverse, List.append_nil, startsCased_withSlashes, startsCased_withSlashes,
    Text.FinalSigma, List.append_nil]

/-- That two characters are the same but for case, or are both separators. -/
def SameSpelled (c d : Char) : Prop :=
  (isSeparator c = true ∧ isSeparator d = true) ∨ Text.SameLetter c d

instance (c d : Char) : Decidable (SameSpelled c d) :=
  inferInstanceAs (Decidable (_ ∨ _))

namespace SameSpelled

variable {c d : Char}

theorem isSeparator_eq (h : SameSpelled c d) : isSeparator c = isSeparator d := by
  rcases h with ⟨hc, hd⟩ | h
  · rw [hc, hd]
  · cases hd : isSeparator d with
    | true => rw [h.mark_eq (isMark_of_isSeparator hd), hd]
    | false =>
        cases hc : isSeparator c with
        | true =>
            rw [h.symm.mark_eq (isMark_of_isSeparator hc), hc] at hd
            cases hd
        | false => rfl

theorem sameLetter_withSlashes (h : SameSpelled c d) :
    Text.SameLetter (if isSeparator c then '/' else c) (if isSeparator d then '/' else d) := by
  have hseparator := h.isSeparator_eq
  rcases h with ⟨hc, hd⟩ | h
  · rw [if_pos hc, if_pos hd]
    rfl
  · rw [hseparator]
    split
    · rfl
    · exact h

theorem mark_eq (h : SameSpelled c d) (hmark : Text.isMark d = true)
    (hplain : isSeparator d = false) :
    c = d := by
  rcases h with ⟨-, hd⟩ | h
  · rw [hplain] at hd
    cases hd
  · exact h.mark_eq hmark

end SameSpelled

/-- That two texts are the same but for case and for the kind of slash. -/
def Respelled (a b : String) : Prop :=
  List.Forall₂ SameSpelled a.toList b.toList

instance (a b : String) : Decidable (Respelled a b) :=
  inferInstanceAs (Decidable (List.Forall₂ _ _ _))

namespace Respelled

variable {a b : String}

theorem sameLetters (h : Respelled a b) :
    List.Forall₂ Text.SameLetter (withSlashes a.toList) (withSlashes b.toList) := by
  rw [withSlashes, withSlashes, List.forall₂_map_left_iff, List.forall₂_map_right_iff]
  exact List.Forall₂.imp (fun _ _ hsame => hsame.sameLetter_withSlashes) h

theorem lowercase_iff (h : Respelled a b) :
    Text.lowercase (String.ofList (withSlashes a.toList)) =
      Text.lowercase (String.ofList (withSlashes b.toList)) ↔ Text.SameFinals a b := by
  have hlength : (withSlashes a.toList).length = a.toList.length := List.length_map _
  rw [Text.lowercase_eq_iff (by simpa using h.sameLetters), Text.SameFinals, Text.SameFinals,
    String.toList_ofList, String.toList_ofList, hlength]
  simp only [finalSigma_withSlashes]

/-- Texts that are the same but for case and slashes, final sigmas included, name the same path. -/
theorem parse_eq (h : Respelled a b) (hfinals : Text.SameFinals a b) :
    Path.parse a = Path.parse b := by
  rw [← Path.parse_withSlashes a, ← Path.parse_lowercase, h.lowercase_iff.mpr hfinals,
    Path.parse_lowercase, Path.parse_withSlashes]

theorem plain {s t : List Char} (h : List.Forall₂ SameSpelled s t)
    (hs : ∀ c ∈ s, isSeparator c = false ∧ c ≠ '\x00') :
    ∀ d ∈ t, isSeparator d = false ∧ d ≠ '\x00' := by
  induction h with
  | nil => simp
  | @cons c d s t hsame _ ih =>
      obtain ⟨⟨hc, hnul⟩, hs⟩ := List.forall_mem_cons.mp hs
      refine List.forall_mem_cons.mpr ⟨⟨hsame.isSeparator_eq ▸ hc, ?_⟩, ih hs⟩
      rintro rfl
      exact hnul (hsame.mark_eq (by decide) (by decide))

theorem eq_of_dots {s t : List Char} (h : List.Forall₂ SameSpelled s t) (ht : ∀ d ∈ t, d = '.') :
    s = t := by
  induction h with
  | nil => rfl
  | cons hsame _ ih =>
      obtain ⟨hdot, hdots⟩ := List.forall_mem_cons.mp ht
      subst hdot
      rw [hsame.mark_eq (by decide) (by decide), ih hdots]

theorem ordinary (h : Respelled a b) (ha : Ordinary a) : Ordinary b := by
  have hdots : ∀ dots : String, (∀ d ∈ dots.toList, d = '.') → a ≠ dots → b ≠ dots := by
    rintro dots hdots hne rfl
    exact hne (String.toList_inj.mp (eq_of_dots h hdots))
  exact ⟨hdots "" (by simp) ha.ne_empty, hdots "." (by simp) ha.ne_dot,
    hdots ".." (by simp) ha.ne_dots, plain h ha.plain⟩

end Respelled

theorem withSlashes_of_plain {cs : List Char} (h : ∀ c ∈ cs, isSeparator c = false) :
    withSlashes cs = cs := by
  calc
    withSlashes cs = cs.map id := List.map_congr_left fun c hc => by simp [h c hc]
    _ = cs := List.map_id cs

theorem Path.parse_ordinary {name : String} (h : Ordinary name) :
    parse name = .ok ⟨[Text.lowercase name]⟩ := by
  have hparse : DisplayPath.parse ("/".intercalate [name]) = .ok ⟨[name]⟩ :=
    DisplayPath.parse_intercalate (by simpa using h)
  rw [String.intercalate_singleton] at hparse
  rw [parse, hparse]
  rfl

/-- For a single name it is also necessary that the final sigmas agree. -/
theorem Respelled.parse_eq_iff {a b : String} (h : Respelled a b) (ha : Ordinary a) :
    Path.parse a = Path.parse b ↔ Text.SameFinals a b := by
  have hb := h.ordinary ha
  have hlowercase := h.lowercase_iff
  rw [withSlashes_of_plain fun c hc => (ha.plain c hc).1,
    withSlashes_of_plain fun c hc => (hb.plain c hc).1, String.ofList_toList,
    String.ofList_toList] at hlowercase
  rw [Path.parse_ordinary ha, Path.parse_ordinary hb, ← hlowercase]
  simp

theorem normalize_append {row segments : List String} {name : String}
    (h : normalize row = some segments) (hname : Ordinary name) :
    normalize (row ++ [name]) = some (segments ++ [name]) := by
  obtain ⟨reversed, hfold, rfl⟩ := Option.map_eq_some_iff.mp h
  rw [normalize, List.foldlM_append, hfold]
  change ([name].foldlM pushPiece reversed).map List.reverse = _
  rw [foldlM_pushPiece (by simpa using hname)]
  simp

theorem lowercase_append_slash (s t : String) :
    Text.lowercase (s ++ "/" ++ t) = Text.lowercase s ++ "/" ++ Text.lowercase t := by
  apply String.toList_inj.mp
  have hslash : (s ++ "/" ++ t).toList = s.toList ++ '/' :: t.toList := by simp
  rw [Text.lowercase, String.toList_ofList, hslash,
    Text.lowerFrom_append (breaks_of_isSeparator rfl)]
  simp [Text.lowercase]

theorem lowercase_intercalate (segments : List String) :
    Text.lowercase ("/".intercalate segments) = "/".intercalate (segments.map Text.lowercase) := by
  induction segments with
  | nil => rfl
  | cons s segments ih =>
      cases segments with
      | nil => rw [String.intercalate_singleton, List.map_singleton, String.intercalate_singleton]
      | cons next segments =>
          rw [String.intercalate_cons_cons, lowercase_append_slash, ih]
          simp only [List.map_cons, String.intercalate_cons_cons]

namespace DisplayPath

variable {raw name : String} {p : DisplayPath}

theorem parse_eq_ok_iff : parse raw = .ok p ↔
    '\x00' ∉ raw.toList ∧ normalize ((pieces raw.toList).map String.ofList) = some p.segments := by
  rcases p with ⟨segments⟩
  rw [parse]
  split
  next hnul => simp [hnul]
  next hnul => cases normalize ((pieces raw.toList).map String.ofList) <;> simp [hnul]

/-- A name behind a path is read as that of a member. -/
theorem parse_append_name (h : parse raw = .ok p) (hname : Ordinary name) :
    parse (raw ++ "/" ++ name) = .ok ⟨p.segments ++ [name]⟩ := by
  obtain ⟨hnul, hnormalize⟩ := parse_eq_ok_iff.mp h
  have hslash : (raw ++ "/" ++ name).toList = raw.toList ++ '/' :: name.toList := by simp
  rw [parse_eq_ok_iff, hslash]
  constructor
  · have hplain : '\x00' ∉ name.toList := fun hmem => (hname.plain _ hmem).2 rfl
    simp [hnul, hplain]
  · rw [pieces_append_pieces _ _ rfl, pieces_of_plain fun c hc => (hname.plain c hc).1,
      List.map_append, List.map_singleton, String.ofList_toList]
    exact normalize_append hnormalize hname

end DisplayPath

theorem Path.parse_append_name {raw name : String} {dir : Path} (h : parse raw = .ok dir)
    (hname : Ordinary name) :
    parse (raw ++ "/" ++ name) = .ok (dir.child (Text.lowercase name)) := by
  rw [parse] at h
  cases hdisplay : DisplayPath.parse raw with
  | error fault =>
      rw [hdisplay] at h
      cases h
  | ok display =>
      rw [hdisplay] at h
      cases h
      rw [parse, DisplayPath.parse_append_name hdisplay hname]
      simp [Except.map, ofDisplay, child]

end ArchiveOverlay
