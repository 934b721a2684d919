import ArchiveOverlay.Proofs.Ordered
import ArchiveOverlay.Proofs.Path.Below
import ArchiveOverlay.Proofs.Path.Climbing
import ArchiveOverlay.Proofs.Text.ByteOrder
import Mathlib.Data.List.Infix

namespace ArchiveOverlay

namespace Path

variable {p dir : Path} {name : String}

theorem isAbove_iff : dir.IsAbove p ↔ dir.segments <+: p.segments ∧ dir.segments ≠ p.segments := by
  constructor
  · rintro ⟨key, rest, hsegments⟩
    exact ⟨⟨key :: rest, hsegments.symm⟩, by simp [hsegments]⟩
  · rintro ⟨⟨rest, hrest⟩, hne⟩
    cases rest with
    | nil => exact absurd (by simpa using hrest) hne
    | cons key rest => exact ⟨key, rest, hrest.symm⟩

/-- The ancestors of a path are the beginnings of its segments, from the longest on. -/
theorem segments_ancestors (p : Path) :
    p.ancestors.map Path.segments = p.segments.inits.dropLast.reverse := by
  have hinits : p.segments.inits.dropLast =
      (List.range p.segments.length).map p.segments.take := by
    apply List.ext_getElem
    · simp
    · intro n _ _
      simp
  rw [hinits, ancestors, List.map_map, ← List.map_reverse]
  rfl

theorem mem_ancestors_iff : dir ∈ p.ancestors ↔ dir.IsAbove p := by
  simp only [ancestors, List.mem_map, List.mem_reverse, List.mem_range]
  constructor
  · rintro ⟨n, hn, rfl⟩
    have hdrop := List.drop_eq_getElem_cons hn
    exact ⟨_, _, (List.take_append_drop n p.segments).symm.trans (by rw [hdrop])⟩
  · rintro ⟨key, rest, hsegments⟩
    refine ⟨dir.segments.length, by simp [hsegments], eq_of_segments ?_⟩
    simp [hsegments]

theorem parent?_child (dir : Path) (name : String) : (dir.child name).parent? = some dir := by
  simp [parent?, isRoot, child]

theorem fileName?_child (dir : Path) (name : String) : (dir.child name).fileName? = some name := by
  simp [fileName?, child]

theorem ancestors_child (dir : Path) (name : String) :
    (dir.child name).ancestors = dir :: dir.ancestors := by
  rw [ancestors, child, List.length_append, List.length_singleton, List.range_succ,
    List.reverse_concat, List.map_cons, List.take_left, ancestors]
  congr 1
  apply List.map_congr_left
  intro n hn
  rw [List.take_append_of_le_length]
  exact Nat.le_of_lt (List.mem_range.mp (List.mem_reverse.mp hn))

/-- Every path but the root is a member of a directory. -/
theorem eq_root_or_child (p : Path) : p = root ∨ ∃ dir name, p = child dir name := by
  rcases p with ⟨segments⟩
  rcases List.eq_nil_or_concat segments with rfl | ⟨front, last, rfl⟩
  · exact .inl rfl
  · exact .inr ⟨⟨front⟩, last, by simp [child]⟩

theorem getLast?_ancestors (h : p ≠ root) : p.ancestors.getLast? = some root := by
  have hne : p.segments.length ≠ 0 := fun hzero =>
    h (eq_of_segments (List.length_eq_zero_iff.mp hzero))
  rw [ancestors, List.getLast?_map, List.getLast?_reverse, List.head?_range, if_neg hne]
  rfl

theorem text_child (dir : Path) (name : String) : (dir.child name).text = dir.continued name := by
  rw [continued]
  split
  next hroot =>
    rw [isRoot_iff.mp hroot]
    simp [child, root, text]
  next hroot =>
    have hsegments : (dir.child name).segments = dir.segments ++ name :: [] := rfl
    rw [text_of_isAbove (mt isRoot_iff.mpr hroot) hsegments, String.intercalate_singleton]

theorem Canonical.child (h : (dir.child name).Canonical) : dir.Canonical ∧ Ordinary name :=
  ⟨fun s hs => h s (by simp [Path.child, hs]), (h name (by simp [Path.child])).1⟩

/-- The bytes of a path below a directory are those of the directory, a slash, and more. -/
theorem isBelow_iff_bytes (hroot : dir ≠ root) :
    p.isBelow dir = true ↔ Text.bytes dir.text <+: Text.bytes p.text ∧
      (Text.bytes p.text)[(Text.bytes dir.text).length]? = some '/'.toUInt8 := by
  have hslash : Text.bytes (dir.text ++ "/") = Text.bytes dir.text ++ ['/'.toUInt8] := by
    rw [Text.bytes_eq_flatMap, Text.bytes_eq_flatMap, String.toList_append, List.flatMap_append]
    rfl
  have hchars : (dir.text ++ "/").toList = dir.text.toList ++ ['/'] := by simp
  rw [isBelow, if_neg (mt isRoot_iff.mp hroot), List.isPrefixOf_iff_prefix, ← hchars,
    ← Text.bytes_prefix_iff, hslash]
  constructor
  · rintro ⟨rest, hrest⟩
    rw [← hrest]
    refine ⟨?_, by simp⟩
    rw [List.append_assoc]
    exact List.prefix_append _ _
  · rintro ⟨⟨rest, hrest⟩, hnext⟩
    rw [← hrest] at hnext ⊢
    rw [List.getElem?_append_right (Nat.le_refl _), Nat.sub_self,
      ← List.head?_eq_getElem?] at hnext
    obtain ⟨tail, rfl⟩ := List.head?_eq_some_iff.mp hnext
    exact ⟨tail, by simp⟩

/-- In a list of paths in order, a directory stands before all that lies below it. -/
theorem mem_front_of_isAbove {paths front back : List Path} (hp : p.Canonical) (h : dir.IsAbove p)
    (hpaths : paths.Pairwise fun a b => Text.bytes a.text ≤ Text.bytes b.text)
    (hsplit : paths = front ++ p :: back) : dir ∉ back ∧ (dir ∈ paths → dir ∈ front) := by
  have hlt : Text.bytes dir.text < Text.bytes p.text :=
    Text.bytes_lt_iff.mpr (text_lt_of_isAbove hp h)
  rw [hsplit, List.pairwise_append, List.pairwise_cons] at hpaths
  obtain ⟨-, ⟨hback, -⟩, -⟩ := hpaths
  have hnot : dir ∉ back := fun hmem => hback dir hmem hlt
  refine ⟨hnot, fun hmem => ?_⟩
  rw [hsplit, List.mem_append, List.mem_cons] at hmem
  rcases hmem with hfront | rfl | hmem
  · exact hfront
  · exact absurd hlt (List.lt_irrefl _)
  · exact absurd hmem hnot

end Path

/-- Two paths that have been read. One lies below the other just if its segments go on from those
of the other, if the other is one of its ancestors, and, away from the root, if its bytes go on
with a slash. The ancestors are the beginnings of the segments, from the nearest to the root, and
each is the parent of the one before it. A path other than the root is its name behind the last
slash of its text, put into its parent. What lies below a path comes after it, and so in every
ordered list. -/
theorem descent_agrees {raw raw' : String} {p dir : Path} (hp : Path.parse raw = .ok p)
    (hdir : Path.parse raw' = .ok dir) :
    (p.isBelow dir = true ↔ dir.segments <+: p.segments ∧ dir.segments ≠ p.segments) ∧
    (p.isBelow dir = true ↔ dir ∈ p.ancestors) ∧
    (dir ≠ .root → (p.isBelow dir = true ↔ Text.bytes dir.text <+: Text.bytes p.text ∧
      (Text.bytes p.text)[(Text.bytes dir.text).length]? = some '/'.toUInt8)) ∧
    slashed p.text = p.segments ∧
    p.ancestors.map Path.segments = p.segments.inits.dropLast.reverse ∧
    (p = .root ∧ p.parent? = none ∧ p.fileName? = none ∧ p.ancestors = [] ∨
      ∃ outer name, p.parent? = some outer ∧ p.fileName? = some name ∧
        p.ancestors = outer :: outer.ancestors ∧ p.ancestors.getLast? = some .root ∧
        p.segments = outer.segments ++ [name] ∧ '/' ∉ name.toList ∧
        p.text = outer.continued name ∧ outer.child name = p ∧
        Path.parse outer.text = .ok outer) ∧
    (p.isBelow dir = true → Text.before dir.text p.text = true ∧
      Text.bytes dir.text < Text.bytes p.text ∧
      ∀ paths, paths.Pairwise (fun a b => Text.bytes a.text ≤ Text.bytes b.text) →
        ∀ front back, paths = front ++ p :: back → dir ∉ back ∧ (dir ∈ paths → dir ∈ front)) := by
  have hp := Path.canonical_of_parse hp
  have hdir := Path.canonical_of_parse hdir
  have hbelow := Path.isBelow_iff hp hdir
  refine ⟨hbelow.trans Path.isAbove_iff, hbelow.trans Path.mem_ancestors_iff.symm,
    Path.isBelow_iff_bytes, slashed_intercalate fun s hs => (hp s hs).1,
    p.segments_ancestors, ?_, ?_⟩
  · rcases p.eq_root_or_child with rfl | ⟨outer, name, rfl⟩
    · exact .inl ⟨rfl, rfl, rfl, rfl⟩
    · obtain ⟨houter, hname⟩ := hp.child
      refine .inr ⟨outer, name, outer.parent?_child name, outer.fileName?_child name,
        outer.ancestors_child name, Path.getLast?_ancestors ?_, rfl, ?_,
        outer.text_child name, rfl, Path.parse_text houter⟩
      · exact (outer.isAbove_child name).ne_root
      · exact fun hslash => absurd (hname.plain _ hslash).1 (by decide)
  · intro h
    have habove := hbelow.mp h
    have hlt := Path.text_lt_of_isAbove hp habove
    refine ⟨Text.before_iff_lt.mpr hlt, Text.bytes_lt_iff.mpr hlt, ?_⟩
    exact fun paths hpaths front back hsplit => Path.mem_front_of_isAbove hp habove hpaths hsplit

/-- A file comes before the members of a directory of the same name. -/
theorem descent_agrees_same_name :
    Path.parse "Ä\\b" = .ok ⟨["ä", "b"]⟩ ∧ Path.parse "ä" = .ok ⟨["ä"]⟩ ∧
      Path.isBelow ⟨["ä", "b"]⟩ ⟨["ä"]⟩ = true ∧ ⟨["ä"]⟩ ∈ Path.ancestors ⟨["ä", "b"]⟩ ∧
      Text.bytes "ä" < Text.bytes "ä/b" := by
  have hmember : Path.parse "Ä\\b" = .ok ⟨["ä", "b"]⟩ := rfl
  have hfile : Path.parse "ä" = .ok ⟨["ä"]⟩ := rfl
  obtain ⟨hbegins, hancestor, -, -, -, -, horder⟩ := descent_agrees hmember hfile
  have hbelow := hbegins.mpr (by decide)
  exact ⟨hmember, hfile, hbelow, hancestor.mp hbelow, (horder hbelow).2.1⟩

end ArchiveOverlay
