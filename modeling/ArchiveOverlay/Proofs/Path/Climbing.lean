import ArchiveOverlay.Proofs.Path.Spelling

/-!
How far a text climbs. Main statements: a text names a path if it has no NUL and no beginning of it
has more `..` than names; and from any path on, a text first climbs and then goes down, so that
paths can be joined one after the other.
-/

namespace ArchiveOverlay

/-- The pieces of a text between its slashes and backslashes. -/
def rowOf (raw : String) : List String :=
  (raw.toList.splitOnP isSeparator).map String.ofList

/-- Whether a piece is a name, that is neither empty nor one or two dots. -/
def isName (piece : String) : Bool :=
  piece ≠ "" && piece ≠ "." && piece ≠ ".."

/-- That no beginning of a row has more `..` than names. -/
def Balanced (row : List String) : Prop :=
  ∀ front, front <+: row → front.count ".." ≤ front.countP isName

/-- How far a row of pieces climbs above its start. -/
def climbs : List String → Nat
  | [] => 0
  | piece :: rest =>
    if piece = ".." then climbs rest + 1
    else if isName piece then climbs rest - 1
    else climbs rest

theorem isName_dots : isName ".." = false := by
  decide

theorem count_and_countP_cons (piece : String) (front : List String) :
    (piece :: front).count ".." = front.count ".." + (if piece = ".." then 1 else 0) ∧
      (piece :: front).countP isName = front.countP isName + (if isName piece then 1 else 0) := by
  refine ⟨?_, List.countP_cons⟩
  rw [List.count_cons]
  simp only [beq_iff_eq]

theorem climbs_le_iff {row : List String} {n : Nat} :
    climbs row ≤ n ↔ ∀ front, front <+: row → front.count ".." ≤ front.countP isName + n := by
  induction row generalizing n with
  | nil => simp [climbs]
  | cons piece rest ih =>
      -- A beginning is empty or starts with the piece, which moves the bound by one.
      have hfronts :
          (∀ front, front <+: piece :: rest → front.count ".." ≤ front.countP isName + n) ↔
            ∀ front, front <+: rest → front.count ".." + (if piece = ".." then 1 else 0) ≤
              front.countP isName + (if isName piece then 1 else 0) + n := by
        constructor
        · intro h front hfront
          obtain ⟨hcount, hcountP⟩ := count_and_countP_cons piece front
          rw [← hcount, ← hcountP]
          exact h _ ((List.prefix_cons_inj piece).mpr hfront)
        · intro h front hfront
          rcases List.prefix_cons_iff.mp hfront with rfl | ⟨front, rfl, hrest⟩
          · simp
          · obtain ⟨hcount, hcountP⟩ := count_and_countP_cons piece front
            rw [hcount, hcountP]
            exact h front hrest
      rw [hfronts, climbs]
      split
      next hdots =>
        rw [hdots, isName_dots]
        cases n with
        | zero =>
            refine ⟨fun h => by omega, fun h => ?_⟩
            have hempty := h [] List.nil_prefix
            simp at hempty
        | succ n =>
            rw [Nat.add_le_add_iff_right, ih]
            apply forall₂_congr
            intro front _
            simp
            omega
      next hdots =>
        split
        next hname =>
          rw [Nat.sub_le_iff_le_add, ih]
          apply forall₂_congr
          intro front _
          omega
        next hname => simpa using ih

theorem climbs_eq_zero_iff {row : List String} : climbs row = 0 ↔ Balanced row := by
  rw [← Nat.le_zero, climbs_le_iff]
  rfl

instance (row : List String) : Decidable (Balanced row) :=
  decidable_of_iff _ climbs_eq_zero_iff

/-- The names of a row that remain, as what is behind them does not climb above them. -/
def kept : List String → List String
  | [] => []
  | piece :: rest =>
    if isName piece = true ∧ Balanced rest then piece :: kept rest else kept rest

theorem pieces_eq_splitOnP (cs : List Char) : pieces cs = cs.splitOnP isSeparator := by
  induction cs with
  | nil => rfl
  | cons c cs ih =>
      rw [pieces, List.splitOnP_cons_eq_if_modifyHead, ← ih]
      obtain ⟨piece, more, hpieces⟩ := List.exists_cons_of_ne_nil (pieces_ne_nil cs)
      rw [hpieces]
      rfl

theorem rowOf_eq (raw : String) : rowOf raw = (pieces raw.toList).map String.ofList := by
  rw [rowOf, pieces_eq_splitOnP]

theorem rowOf_append (base raw : String) :
    rowOf (base ++ "/" ++ raw) = rowOf base ++ rowOf raw := by
  have hslash : (base ++ "/" ++ raw).toList = base.toList ++ '/' :: raw.toList := by simp
  rw [rowOf, hslash, List.splitOnP_append_cons _ _ rfl, List.map_append, rowOf, rowOf]

theorem pushPiece_of_isName {piece : String} (h : isName piece = true) (segments : List String) :
    pushPiece segments piece = some (piece :: segments) := by
  have hname : (piece ≠ "" ∧ piece ≠ ".") ∧ piece ≠ ".." := by simpa [isName] using h
  simp [pushPiece, hname]

theorem pushPiece_of_skipped {piece : String} (h : ¬ isName piece = true) (hdots : piece ≠ "..")
    (segments : List String) : pushPiece segments piece = some segments := by
  have hskipped : piece = "" ∨ piece = "." := by
    by_contra hneither
    exact h (by simpa [isName, hdots] using hneither)
  exact if_pos hskipped

/-- A row of pieces takes away as many segments as it climbs, and puts down the names that
remain. -/
theorem foldlM_pushPiece_eq (row segments : List String) :
    row.foldlM pushPiece segments =
      if climbs row ≤ segments.length then some ((kept row).reverse ++ segments.drop (climbs row))
      else none := by
  induction row generalizing segments with
  | nil => rfl
  | cons piece rest ih =>
      rw [List.foldlM_cons, climbs, kept]
      split
      next hdots =>
        subst hdots
        rw [isName_dots]
        cases segments with
        | nil => rfl
        | cons last outer =>
            change rest.foldlM pushPiece outer = _
            rw [ih]
            simp
      next hdots =>
        split
        next hname =>
          rw [pushPiece_of_isName hname]
          change rest.foldlM pushPiece (piece :: segments) = _
          simp only [ih, ← climbs_eq_zero_iff, List.length_cons, Nat.sub_le_iff_le_add]
          -- The name stays if the rest does not climb, and otherwise is the first that it takes
          -- away.
          cases climbs rest with
          | zero => simp [hname]
          | succ n => simp
        next hname =>
          have hdropped : ¬ (isName piece = true ∧ Balanced rest) := fun h => hname h.1
          rw [pushPiece_of_skipped hname hdots, if_neg hdropped]
          exact ih segments

theorem normalize_append_row {row segments : List String} (h : normalize row = some segments)
    (rest : List String) :
    normalize (row ++ rest) =
      if climbs rest ≤ segments.length then
        some (segments.take (segments.length - climbs rest) ++ kept rest)
      else none := by
  obtain ⟨reversed, hfold, rfl⟩ := Option.map_eq_some_iff.mp h
  rw [normalize, List.foldlM_append, hfold]
  change (rest.foldlM pushPiece reversed).map List.reverse = _
  rw [foldlM_pushPiece_eq, List.length_reverse]
  split
  · rw [Option.map_some, List.reverse_append, List.reverse_reverse, List.reverse_drop]
  · rfl

theorem normalize_eq (row : List String) :
    normalize row = if Balanced row then some (kept row) else none := by
  have hrow : normalize ([] ++ row) = _ := normalize_append_row rfl row
  simpa [climbs_eq_zero_iff] using hrow

theorem DisplayPath.parse_eq_kept {raw : String} {p : DisplayPath} :
    parse raw = .ok p ↔
      ('\x00' ∉ raw.toList ∧ Balanced (rowOf raw)) ∧ p.segments = kept (rowOf raw) := by
  rw [parse_eq_ok_iff, ← rowOf_eq, normalize_eq, and_assoc]
  split
  next hbalanced => simp [hbalanced, eq_comm]
  next hbalanced => simp [hbalanced]

theorem Path.parse_eq_ok_iff {raw : String} {key : Path} :
    parse raw = .ok key ↔ ∃ p, DisplayPath.parse raw = .ok p ∧ ofDisplay p = key := by
  rw [parse]
  cases DisplayPath.parse raw with
  | error fault => simp [Except.map]
  | ok p => simp [Except.map]

/-- The segments of a text between its slashes. The empty text has none. -/
def slashed (text : String) : List String :=
  if text = "" then [] else (text.toList.splitOn '/').map String.ofList

theorem slashed_intercalate {segments : List String} (h : ∀ s ∈ segments, Ordinary s) :
    slashed ("/".intercalate segments) = segments := by
  have hparse := DisplayPath.parse_intercalate h
  rw [slashed]
  split
  next hempty =>
    rw [hempty] at hparse
    exact congrArg DisplayPath.segments (Except.ok.inj hparse)
  next hne =>
    have hplain : ∀ cs ∈ segments.map String.toList, '/' ∉ cs := by
      intro cs hcs hslash
      obtain ⟨s, hs, rfl⟩ := List.mem_map.mp hcs
      exact absurd ((h s hs).plain _ hslash).1 (by decide)
    have hnonempty : segments.map String.toList ≠ [] := by
      intro hnil
      rw [List.map_eq_nil_iff.mp hnil] at hne
      exact hne rfl
    have hslash : "/".toList = ['/'] := rfl
    rw [String.toList_intercalate, hslash, List.splitOn_intercalate '/' hplain hnonempty,
      List.map_map]
    calc
      segments.map (String.ofList ∘ String.toList) = segments.map id :=
        List.map_congr_left fun s _ => String.ofList_toList
      _ = segments := List.map_id _

theorem Ordinary.isName {s : String} (h : Ordinary s) : isName s = true := by
  simp [ArchiveOverlay.isName, h.ne_empty, h.ne_dot, h.ne_dots]

/-- A text names a path if it has no NUL and no beginning of it has more `..` than names. The path
then consists of names without backslash and NUL, those that nothing behind them climbs out of.
Small letters can be taken of the whole text or name by name, and what has been read is read again
as it is. -/
theorem reading_balanced (raw : String) :
    ((∃ p, DisplayPath.parse raw = .ok p) ↔ '\x00' ∉ raw.toList ∧ Balanced (rowOf raw)) ∧
    ((∃ key, Path.parse raw = .ok key) ↔ '\x00' ∉ raw.toList ∧ Balanced (rowOf raw)) ∧
    ∀ p key, DisplayPath.parse raw = .ok p → Path.parse raw = .ok key →
      p.segments = kept (rowOf raw) ∧ slashed p.text = p.segments ∧
      (∀ s ∈ p.segments, isName s = true ∧ '\\' ∉ s.toList ∧ '\x00' ∉ s.toList) ∧
      key.text = Text.lowercase p.text ∧ slashed key.text = key.segments ∧
      key.segments = p.segments.map Text.lowercase ∧ (∀ s ∈ key.segments, isName s = true) ∧
      DisplayPath.parse p.text = .ok p ∧ Path.parse p.text = .ok key ∧
      DisplayPath.parse key.text = .ok ⟨key.segments⟩ ∧ Path.parse key.text = .ok key := by
  have hreads : (∃ p, DisplayPath.parse raw = .ok p) ↔
      '\x00' ∉ raw.toList ∧ Balanced (rowOf raw) := by
    simp only [DisplayPath.parse_eq_kept]
    constructor
    · rintro ⟨p, hbalanced, -⟩
      exact hbalanced
    · intro hbalanced
      exact ⟨⟨kept (rowOf raw)⟩, hbalanced, rfl⟩
  refine ⟨hreads, ?_, ?_⟩
  · rw [← hreads]
    simp only [Path.parse_eq_ok_iff]
    constructor
    · rintro ⟨key, p, hparse, -⟩
      exact ⟨p, hparse⟩
    · rintro ⟨p, hparse⟩
      exact ⟨_, p, hparse, rfl⟩
  · intro p key hparse hkey
    obtain ⟨q, hq, rfl⟩ := Path.parse_eq_ok_iff.mp hkey
    obtain rfl : p = q := Except.ok.inj (hparse.symm.trans hq)
    have hordinary := DisplayPath.ordinary_of_parse hparse
    have hlower : ∀ s ∈ (Path.ofDisplay p).segments, Ordinary s := fun s hs =>
      (Path.canonical_of_parse hkey s hs).1
    have hagain : DisplayPath.parse p.text = .ok p := DisplayPath.parse_intercalate hordinary
    refine ⟨(DisplayPath.parse_eq_kept.mp hparse).2, slashed_intercalate hordinary, ?_,
      (lowercase_intercalate p.segments).symm, slashed_intercalate hlower, rfl,
      fun s hs => (hlower s hs).isName, hagain, Path.parse_eq_ok_iff.mpr ⟨p, hagain, rfl⟩,
      DisplayPath.parse_intercalate hlower, Path.parse_text (Path.canonical_of_parse hkey)⟩
    intro s hs
    have hplain := (hordinary s hs).plain
    exact ⟨(hordinary s hs).isName, fun hmem => absurd (hplain _ hmem).1 (by decide),
      fun hmem => (hplain _ hmem).2 rfl⟩

example : kept (rowOf "a\\b/../../c/.//D") = ["c", "D"] ∧ ¬ Balanced (rowOf "a/../../b") := by
  decide +kernel

namespace Path

/-- Where a text leads from a path: up as far as it climbs, and then down along the names that
remain. -/
def onward (p : Path) (raw : String) : Except PathFault Path :=
  if '\x00' ∈ raw.toList then .error .nul
  else if climbs (rowOf raw) ≤ p.segments.length then
    .ok ⟨p.segments.take (p.segments.length - climbs (rowOf raw)) ++
      (kept (rowOf raw)).map Text.lowercase⟩
  else .error .aboveRoot

variable {base raw : String} {p : Path}

theorem parse_of_normalize {text : String} {segments : List String}
    (hnul : '\x00' ∈ text.toList ↔ '\x00' ∈ raw.toList)
    (hrow : normalize (rowOf text) =
      if climbs (rowOf raw) ≤ segments.length then
        some (segments.take (segments.length - climbs (rowOf raw)) ++ kept (rowOf raw))
      else none) :
    parse text = onward ⟨segments.map Text.lowercase⟩ raw := by
  rw [parse, DisplayPath.parse, ← rowOf_eq, hrow, onward]
  simp only [hnul, List.length_map]
  split
  · rfl
  · by_cases hclimbs : climbs (rowOf raw) ≤ segments.length
    · rw [if_pos hclimbs, if_pos hclimbs]
      simp [Except.map, ofDisplay]
    · rw [if_neg hclimbs, if_neg hclimbs]
      rfl

theorem parse_eq_onward (raw : String) : parse raw = root.onward raw := by
  have hrow : normalize ([] ++ rowOf raw) = _ := normalize_append_row rfl (rowOf raw)
  exact parse_of_normalize Iff.rfl hrow

/-- A text that names a path by itself leads down only. -/
theorem onward_of_parse {q : Path} (h : parse raw = .ok q) (p : Path) :
    p.onward raw = .ok ⟨p.segments ++ q.segments⟩ := by
  obtain ⟨display, hdisplay, rfl⟩ := parse_eq_ok_iff.mp h
  obtain ⟨⟨hnul, hbalanced⟩, hkept⟩ := DisplayPath.parse_eq_kept.mp hdisplay
  rw [onward, if_neg hnul, climbs_eq_zero_iff.mpr hbalanced, if_pos (Nat.zero_le _)]
  simp [ofDisplay, hkept]

/-- A text behind a path leads on from it. -/
theorem parse_append_slash (h : parse base = .ok p) (raw : String) :
    parse (base ++ "/" ++ raw) = p.onward raw := by
  obtain ⟨display, hdisplay, rfl⟩ := parse_eq_ok_iff.mp h
  obtain ⟨hnul, hnormalize⟩ := DisplayPath.parse_eq_ok_iff.mp hdisplay
  rw [← rowOf_eq] at hnormalize
  apply parse_of_normalize
  · simp [hnul]
  · rw [rowOf_append, normalize_append_row hnormalize]

/-- Joining looks at the segments of a path, however it was spelled. -/
theorem join_eq_onward (h : p.Canonical) (raw : String) : p.join raw = p.onward raw := by
  rw [join, continued]
  split
  next hroot => rw [isRoot_iff.mp hroot, parse_eq_onward]
  next hroot => exact parse_append_slash (parse_text h) raw

end Path

/-- Joining a path that has been read with a text gives what the two texts give with a slash
between them: the path that is left after climbing, and the names that remain below it. Nothing in
front of a text or behind a path changes what is read, and texts can be joined one after the
other. -/
theorem join_reads {base : String} {p : Path} (h : Path.parse base = .ok p) (raw : String) :
    p.join raw = Path.parse (base ++ "/" ++ raw) ∧
    p.join raw = p.onward raw ∧
    (p = .root → p.join raw = Path.parse raw) ∧
    (∀ q, Path.parse raw = .ok q → p.join raw = .ok ⟨p.segments ++ q.segments⟩) ∧
    ∀ q next, p.join raw = .ok q → q.join next = p.join (raw ++ "/" ++ next) := by
  have hjoin := Path.join_eq_onward (Path.canonical_of_parse h)
  have hreads : ∀ text, p.join text = Path.parse (base ++ "/" ++ text) := by
    intro text
    rw [hjoin, Path.parse_append_slash h]
  refine ⟨hreads raw, hjoin raw, ?_, ?_, ?_⟩
  · rintro rfl
    rw [hjoin, Path.parse_eq_onward]
  · intro q hq
    rw [hjoin, Path.onward_of_parse hq]
  · intro q next hq
    have hq' : Path.parse (base ++ "/" ++ raw) = .ok q := (hreads raw).symm.trans hq
    have htexts : base ++ "/" ++ raw ++ "/" ++ next = base ++ "/" ++ (raw ++ "/" ++ next) := by
      simp only [String.append_assoc]
    rw [Path.join_eq_onward (Path.canonical_of_parse hq'), ← Path.parse_append_slash hq', htexts,
      hreads]

/-- The last letter of each word is a sigma, which gets its final form in front of a slash as
well. -/
theorem join_reads_sigma :
    Path.parse "ΑΣ\\b/." = .ok ⟨["ας", "b"]⟩ ∧
    Path.join ⟨["ας", "b"]⟩ "..\\ΟΔΟΣ" = .ok ⟨["ας", "οδος"]⟩ ∧
    Path.parse ("ΑΣ\\b/." ++ "/" ++ "..\\ΟΔΟΣ") = .ok ⟨["ας", "οδος"]⟩ ∧
    Path.join ⟨["ας", "b"]⟩ ("..\\ΟΔΟΣ" ++ "/" ++ "../../..") = .error .aboveRoot := by
  have hbase : Path.parse "ΑΣ\\b/." = .ok ⟨["ας", "b"]⟩ := rfl
  have honward : Path.onward ⟨["ας", "b"]⟩ "..\\ΟΔΟΣ" = .ok ⟨["ας", "οδος"]⟩ := by decide +kernel
  have habove : Path.join ⟨["ας", "οδος"]⟩ "../../.." = .error .aboveRoot := rfl
  obtain ⟨hreads, hjoin, -, -, htwice⟩ := join_reads hbase "..\\ΟΔΟΣ"
  rw [honward] at hjoin
  exact ⟨hbase, hjoin, hreads ▸ hjoin, (htwice _ _ hjoin).symm.trans habove⟩

end ArchiveOverlay
