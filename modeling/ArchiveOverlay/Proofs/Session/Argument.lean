import ArchiveOverlay.ArchiveSource
import ArchiveOverlay.Proofs.Text.Numeral

namespace ArchiveOverlay

open Text (Blank Denotes)

theorem splitAtLast_of_not_mem {mark : Char} {s : List Char} (h : mark ∉ s) :
    splitAtLast mark s = none := by
  have hall : ∀ c ∈ s.reverse, decide (c ≠ mark) = true := by
    intro c hc
    have hne : c ≠ mark := fun heq => h (heq ▸ List.mem_reverse.mp hc)
    simpa using hne
  have hnil : (s.reverse ++ []).dropWhile (· ≠ mark) = [] := List.dropWhile_append_of_pos hall
  rw [List.append_nil] at hnil
  rw [splitAtLast, hnil]

theorem splitAtLast_append {mark : Char} (front : List Char) {back : List Char} (h : mark ∉ back) :
    splitAtLast mark (front ++ mark :: back) = some (front, back) := by
  have hback : ∀ c ∈ back.reverse, decide (c ≠ mark) = true := by
    intro c hc
    have hne : c ≠ mark := fun heq => h (heq ▸ List.mem_reverse.mp hc)
    simpa using hne
  have hreverse : (front ++ mark :: back).reverse = back.reverse ++ mark :: front.reverse := by
    simp
  rw [splitAtLast, hreverse, List.dropWhile_append_of_pos hback,
    List.takeWhile_append_of_pos hback, List.dropWhile_cons_of_neg (by simp),
    List.takeWhile_cons_of_neg (by simp)]
  simp

theorem exists_last_mark {mark : Char} {s : List Char} (h : mark ∈ s) :
    ∃ front back, s = front ++ mark :: back ∧ mark ∉ back := by
  -- The last mark is the first one of the text read backwards.
  obtain ⟨behind, before, hreverse, hmark⟩ := List.eq_append_cons_of_mem (List.mem_reverse.mpr h)
  refine ⟨before.reverse, behind.reverse, ?_, by simpa using hmark⟩
  rw [← List.reverse_reverse s, hreverse]
  simp

/-- That a text gives a priority: a number of 32 bits, perhaps with white space around it. -/
def GivesPriority (s : String) (n : Int) : Prop :=
  -2147483648 ≤ n ∧ n ≤ 2147483647 ∧ ∃ front number back, Blank front ∧ Blank back ∧
    Denotes number n ∧ s.toList = front ++ number ++ back

theorem priority?_eq_some_iff {s : String} {n : Int} :
    priority? s.toList = some n ↔ GivesPriority s n := by
  rw [priority?, Option.filter_eq_some_iff, Text.integer?_eq_some_iff,
    Text.denotes_trim_iff, GivesPriority]
  simp only [Text.fitsInt32, Bool.and_eq_true, decide_eq_true_eq]
  tauto

namespace ArchiveSource

/-- The texts that name an archive to mount. -/
inductive NamedBy : ArchiveSource → String → Prop where
  | path {path : String} (hmark : '@' ∉ path.toList) (hpath : ¬ Blank path.toList) :
      NamedBy ⟨path, 0⟩ path
  | ranked {path rank : String} {n : Int} (hmark : '@' ∉ rank.toList)
      (hrank : GivesPriority rank n) (hpath : ¬ Blank path.toList) :
      NamedBy ⟨path, n⟩ (path ++ "@" ++ rank)

/-- A source is refused if its path is blank. -/
theorem guard_path (path : String) (n : Int) :
    (guard ((!path.toList.all Text.isBlank) = true) >>= fun _ =>
        some (⟨String.ofList path.toList, n⟩ : ArchiveSource)) =
      if path.toList.all Text.isBlank = true then none else some ⟨path, n⟩ := by
  rw [String.ofList_toList]
  cases path.toList.all Text.isBlank <;> rfl

theorem parse?_path {path : String} (hmark : '@' ∉ path.toList) :
    parse? path = if path.toList.all Text.isBlank = true then none else some ⟨path, 0⟩ := by
  rw [parse?, splitAtLast_of_not_mem hmark]
  exact guard_path path 0

theorem parse?_ranked (path : String) {rank : String} (hmark : '@' ∉ rank.toList) :
    parse? (path ++ "@" ++ rank) = (priority? rank.toList).bind fun n =>
      if path.toList.all Text.isBlank = true then none else some ⟨path, n⟩ := by
  have htext : (path ++ "@" ++ rank).toList = path.toList ++ '@' :: rank.toList := by simp
  rw [parse?, htext, splitAtLast_append _ hmark]
  change ((priority? rank.toList).map fun n => (path.toList, n)) >>= _ = _
  cases priority? rank.toList with
  | none => rfl
  | some n => exact guard_path path n

theorem parse?_eq_some_iff {source : ArchiveSource} {value : String} :
    parse? value = some source ↔ source.NamedBy value := by
  have hall : ∀ path : String, path.toList.all Text.isBlank = true ↔ Blank path.toList :=
    fun path => List.all_eq_true
  constructor
  · intro h
    by_cases hmark : '@' ∈ value.toList
    · obtain ⟨front, back, hvalue, hlast⟩ := exists_last_mark hmark
      obtain rfl : value = String.ofList front ++ "@" ++ String.ofList back := by
        rw [← String.toList_inj, hvalue]
        simp
      have hlast : '@' ∉ (String.ofList back).toList := by rwa [String.toList_ofList]
      rw [parse?_ranked _ hlast] at h
      obtain ⟨n, hn, h⟩ := Option.bind_eq_some_iff.mp h
      split at h
      · cases h
      next hpath =>
        obtain rfl := Option.some.inj h
        exact .ranked hlast (priority?_eq_some_iff.mp hn) (mt (hall _).mpr hpath)
    · rw [parse?_path hmark] at h
      split at h
      · cases h
      next hpath =>
        obtain rfl := Option.some.inj h
        exact .path hmark (mt (hall _).mpr hpath)
  · intro h
    cases h with
    | path hmark hpath => rw [parse?_path hmark, if_neg (mt (hall _).mp hpath)]
    | ranked hmark hrank hpath =>
        rw [parse?_ranked _ hmark, priority?_eq_some_iff.mpr hrank, Option.bind_some,
          if_neg (mt (hall _).mp hpath)]

theorem parse_eq_ok_iff {source : ArchiveSource} {value : String} :
    parse value = .ok source ↔ source.NamedBy value := by
  rw [← parse?_eq_some_iff, parse]
  cases parse? value <;> simp

theorem parse_of_unnamed {value : String} (h : ∀ source, ¬ NamedBy source value) :
    parse value = .error (.invalidArchiveArgument value) := by
  have hnone : parse? value = none :=
    Option.eq_none_iff_forall_ne_some.mpr
      fun source hsource => h source (parse?_eq_some_iff.mp hsource)
  rw [parse, hnone]

end ArchiveSource

theorem givesPriority_signedDecimal {n : Int} (hlow : -2147483648 ≤ n) (hhigh : n ≤ 2147483647) :
    GivesPriority (Text.signedDecimal n) n :=
  ⟨hlow, hhigh, [], _, [], by simp [Blank], by simp [Blank], Text.denotes_signedDecimal n, by simp⟩

/-- An archive to mount is read just from the texts that name one, and any other text is reported.
A path that is not blank, with whatever marks in it, and a priority of 32 bits read back as they
are written. -/
theorem archive_argument (value path : String) (n : Int) :
    (∀ source, ArchiveSource.parse value = .ok source ↔ source.NamedBy value) ∧
    ((¬ ∃ source, ArchiveSource.NamedBy source value) ↔
      ArchiveSource.parse value = .error (.invalidArchiveArgument value)) ∧
    (¬ Blank path.toList → -2147483648 ≤ n → n ≤ 2147483647 →
      ArchiveSource.parse (path ++ "@" ++ Text.signedDecimal n) = .ok ⟨path, n⟩) := by
  refine ⟨fun source => ArchiveSource.parse_eq_ok_iff, ⟨?_, ?_⟩, ?_⟩
  · intro hnone
    exact ArchiveSource.parse_of_unnamed fun source hsource => hnone ⟨source, hsource⟩
  · rintro hparse ⟨source, hsource⟩
    cases hparse.symm.trans (ArchiveSource.parse_eq_ok_iff.mpr hsource)
  · intro hpath hlow hhigh
    have hmark : '@' ∉ (Text.signedDecimal n).toList := by
      intro hmem
      have hkinds := (Text.denotes_signedDecimal n).mem hmem
      revert hkinds
      decide
    exact ArchiveSource.parse_eq_ok_iff.mpr
      (.ranked hmark (givesPriority_signedDecimal hlow hhigh) hpath)

/-- Only the last mark divides, and a path may hold others. -/
theorem archive_argument_two_marks :
    ArchiveSource.parse ("mods@home.zip" ++ "@" ++ Text.signedDecimal (-3)) =
      .ok ⟨"mods@home.zip", -3⟩ := by
  have hpath : ¬ Blank "mods@home.zip".toList :=
    fun hblank => absurd (hblank 'm' (by simp)) (by decide)
  exact (archive_argument "" "mods@home.zip" (-3)).2.2 hpath (by decide) (by decide)

end ArchiveOverlay
