import ArchiveOverlay.Text.Lowercase
import Mathlib.Data.Nat.Bitwise
import Mathlib.Data.String.Basic

namespace ArchiveOverlay.Text

def CaseRun.letters (run : CaseRun) : List Nat :=
  (List.range ((run.last - run.first) / run.step + 1)).map fun i => run.first + run.step * i

theorem partner?_eq_some {n m : Nat} {runs : List CaseRun} (h : partner? n runs = some m) :
    ∃ run ∈ runs, n ∈ run.letters ∧ run.first ≤ n ∧ n ≤ run.last ∧
      m = Int.toNat (n + run.shift) := by
  induction runs with
  | nil => cases h
  | cons run runs ih =>
      rw [partner?] at h
      split at h
      · cases h
      next hfirst =>
        split at h
        next hlast =>
          split at h
          next hstep =>
            refine ⟨run, by simp, ?_, by omega, hlast, (Option.some.inj h).symm⟩
            refine List.mem_map.mpr ⟨(n - run.first) / run.step, ?_, ?_⟩
            · rw [List.mem_range, Nat.lt_succ_iff]
              exact Nat.div_le_div_right (by omega)
            · have hdiv := Nat.mod_add_div (n - run.first) run.step
              omega
          · cases h
        · obtain ⟨run', hrun', hspec⟩ := ih h
          exact ⟨run', by simp [hrun'], hspec⟩

/-- A set of numbers as the bits of one. -/
def bits (numbers : List Nat) : Nat :=
  numbers.foldl (fun set n => set ||| 1 <<< n) 0

theorem testBit_foldl (numbers : List Nat) (set n : Nat) :
    (numbers.foldl (fun set n => set ||| 1 <<< n) set).testBit n =
      (set.testBit n || decide (n ∈ numbers)) := by
  induction numbers generalizing set with
  | nil => simp
  | cons first numbers ih =>
      rw [List.foldl_cons, ih, Nat.testBit_or, Nat.one_shiftLeft, Nat.testBit_two_pow]
      by_cases h : first = n
      · simp [h]
      · simp [h, Ne.symm h]

theorem testBit_bits (numbers : List Nat) (n : Nat) :
    (bits numbers).testBit n = decide (n ∈ numbers) := by
  simp [bits, testBit_foldl]

theorem not_mem_of_bits_disjoint {s t : List Nat} (h : bits s &&& bits t = 0) {n : Nat}
    (ht : n ∈ t) : n ∉ s := by
  intro hs
  have hbit : (bits s &&& bits t).testBit n = true := by
    rw [Nat.testBit_and, testBit_bits, testBit_bits]
    simp [hs, ht]
  rw [h] at hbit
  simp at hbit

/-- All code points that have a small form of their own. -/
def capitals : List Nat :=
  0x130 :: lowerRuns.flatMap CaseRun.letters

/-- All code points that are such a small form. -/
def smalls : List Nat :=
  lowerRuns.flatMap fun run => run.letters.map fun (n : Nat) => Int.toNat (n + run.shift)

-- Comparing the two as sets of bits is far cheaper than looking up every small letter.
theorem capitals_disjoint_smalls : bits capitals &&& bits smalls = 0 := by
  decide +kernel

/-- That a run leads to characters, and within ASCII to letters only. -/
def CaseRun.inRange (run : CaseRun) : Bool :=
  let first := Int.toNat (run.first + run.shift)
  let last := Int.toNat (run.last + run.shift)
  (Nat.ble 0x80 first && Nat.ble last 0xd7ff) || (Nat.ble 0xe000 first && Nat.ble last 0x10ffff) ||
    (Nat.ble 0x61 first && Nat.ble last 0x7a)

theorem lowerRuns_inRange : lowerRuns.all CaseRun.inRange = true := by
  decide +kernel

/-- What a code point is if it is the partner of a capital letter. -/
theorem partner?_lowerRuns {n m : Nat} (h : partner? n lowerRuns = some m) :
    m ∉ capitals ∧
      ((0x80 ≤ m ∧ m ≤ 0xd7ff) ∨ (0xe000 ≤ m ∧ m ≤ 0x10ffff) ∨ (0x61 ≤ m ∧ m ≤ 0x7a)) := by
  obtain ⟨run, hrun, hletters, hfirst, hlast, rfl⟩ := partner?_eq_some h
  constructor
  · apply not_mem_of_bits_disjoint capitals_disjoint_smalls
    exact List.mem_flatMap.mpr ⟨run, hrun, List.mem_map.mpr ⟨n, hletters, rfl⟩⟩
  · have hrange := List.all_eq_true.mp lowerRuns_inRange run hrun
    simp only [CaseRun.inRange, Bool.or_eq_true, Bool.and_eq_true, Nat.ble_eq] at hrange
    omega

theorem partner?_eq_none {n : Nat} (h : n ∉ capitals) : partner? n lowerRuns = none := by
  cases hpartner : partner? n lowerRuns with
  | none => rfl
  | some m =>
      obtain ⟨run, hrun, hletters, -⟩ := partner?_eq_some hpartner
      exact absurd (List.mem_cons_of_mem _ (List.mem_flatMap.mpr ⟨run, hrun, hletters⟩)) h

/-- Characters with a meaning of their own in paths. -/
def isMark (c : Char) : Bool :=
  c = '/' || c = '\\' || c = '.' || c = '\x00'

/-- That lowercasing leaves a character as it is, wherever it stands. -/
def Settled (c : Char) : Prop :=
  lowerChar c = [c] ∧ c ≠ 'Σ'

/-- What may come of a character: it is settled, and a mark only if it was that mark before. -/
def Follows (d c : Char) : Prop :=
  Settled d ∧ (isMark d = true → d = c)

instance (c : Char) : Decidable (Settled c) :=
  inferInstanceAs (Decidable (_ ∧ _))

instance (d c : Char) : Decidable (Follows d c) :=
  inferInstanceAs (Decidable (_ ∧ _))

-- Rows of small forms are checked by `all`: quantifying over characters would go through them all.
theorem ascii_all_follow : ((List.range 0x80).all fun n =>
    (lowerChar (Char.ofNat n)).all fun d => decide (Follows d (Char.ofNat n))) = true := by
  decide +kernel

theorem follows_of_ascii {c d : Char} (hc : c.toNat < 0x80) (h : d ∈ lowerChar c) :
    Follows d c := by
  have hrow := List.all_eq_true.mp ascii_all_follow c.toNat (List.mem_range.mpr hc)
  rw [Char.ofNat_toNat] at hrow
  exact of_decide_eq_true (List.all_eq_true.mp hrow d h)

theorem follows_sigma : Follows 'ς' 'Σ' ∧ Follows 'σ' 'Σ' := by
  decide +kernel

theorem toNat_ofNat_of_valid {m : Nat} (h : m ≤ 0xd7ff ∨ (0xe000 ≤ m ∧ m ≤ 0x10ffff)) :
    (Char.ofNat m).toNat = m := by
  have hvalid : m.isValidChar := by
    simp only [Nat.isValidChar]
    omega
  rw [Char.ofNat, dif_pos hvalid]
  rfl

theorem settled_of_not_capital {d : Char} (hlarge : 0x80 ≤ d.toNat) (h : d.toNat ∉ capitals) :
    Settled d := by
  constructor
  · have hdotted : d.toNat ≠ 0x130 := fun heq => h (by simp [capitals, heq])
    rw [lowerChar, if_neg (by omega), if_neg hdotted, partner?_eq_none h]
  · rintro rfl
    exact h (by decide +kernel)

theorem not_isMark_of_large {d : Char} (hlarge : 0x61 ≤ d.toNat) : isMark d = false := by
  have hne : ∀ mark : Char, mark.toNat < 0x61 → d ≠ mark := by
    rintro mark hmark rfl
    omega
  simp [isMark, hne '/' (by decide), hne '\\' (by decide), hne '.' (by decide),
    hne '\x00' (by decide)]

theorem follows_of_small {m : Nat} (c : Char) (hm : m ∉ capitals)
    (hrange : (0x80 ≤ m ∧ m ≤ 0xd7ff) ∨ (0xe000 ≤ m ∧ m ≤ 0x10ffff) ∨ (0x61 ≤ m ∧ m ≤ 0x7a)) :
    Follows (Char.ofNat m) c := by
  have htoNat : (Char.ofNat m).toNat = m := toNat_ofNat_of_valid (by omega)
  have hmark : isMark (Char.ofNat m) = false := not_isMark_of_large (by omega)
  refine ⟨?_, fun h => absurd h (by simp [hmark])⟩
  by_cases hlarge : 0x80 ≤ m
  · exact settled_of_not_capital (by omega) (by rwa [htoNat])
  · have hletters : ((List.range' 0x61 26).all fun n => decide (Settled (Char.ofNat n))) =
        true := by
      decide +kernel
    have hmem : m ∈ List.range' 0x61 26 := List.mem_range'_1.mpr (by omega)
    exact of_decide_eq_true (List.all_eq_true.mp hletters m hmem)

theorem follows_of_mem_lowerChar {c d : Char} (hc : c ≠ 'Σ') (h : d ∈ lowerChar c) :
    Follows d c := by
  by_cases hascii : c.toNat < 0x80
  · exact follows_of_ascii hascii h
  · rw [lowerChar, if_neg hascii] at h
    split at h
    next hdotted =>
      have hboth : (['i', Char.ofNat 0x307].all fun d =>
          decide (Follows d (Char.ofNat 0x130))) = true := by
        decide +kernel
      have hc : c = Char.ofNat 0x130 := by rw [← hdotted, Char.ofNat_toNat]
      rw [hc]
      exact of_decide_eq_true (List.all_eq_true.mp hboth d h)
    next hdotted =>
      split at h
      next m hpartner =>
        obtain ⟨hm, hrange⟩ := partner?_lowerRuns hpartner
        rw [List.mem_singleton] at h
        exact h ▸ follows_of_small c hm hrange
      next hpartner =>
        rw [List.mem_singleton] at h
        subst h
        refine ⟨⟨?_, hc⟩, fun _ => rfl⟩
        rw [lowerChar, if_neg hascii, if_neg hdotted, hpartner]

def smallForm (afterCased : Bool) (c : Char) (rest : List Char) : List Char :=
  if c = 'Σ' then
    if afterCased && !startsCased rest then ['ς'] else ['σ']
  else lowerChar c

theorem lowerFrom_cons (afterCased : Bool) (c : Char) (rest : List Char) :
    lowerFrom afterCased (c :: rest) =
      smallForm afterCased c rest ++
        lowerFrom (if isCaseIgnorable c then afterCased else isCased c) rest :=
  rfl

theorem follows_of_mem_smallForm {afterCased : Bool} {c d : Char} {rest : List Char}
    (h : d ∈ smallForm afterCased c rest) : Follows d c := by
  rw [smallForm] at h
  split at h
  next hsigma =>
    subst hsigma
    split at h
    · rw [List.mem_singleton] at h
      exact h ▸ follows_sigma.1
    · rw [List.mem_singleton] at h
      exact h ▸ follows_sigma.2
  next hsigma => exact follows_of_mem_lowerChar hsigma h

theorem lowerChar_ne_nil (c : Char) : lowerChar c ≠ [] := by
  rw [lowerChar]
  split
  · simp
  · split
    · simp
    · split <;> simp

theorem smallForm_ne_nil (afterCased : Bool) (c : Char) (rest : List Char) :
    smallForm afterCased c rest ≠ [] := by
  rw [smallForm]
  split
  · split <;> simp
  · exact lowerChar_ne_nil c

theorem mem_lowerFrom {afterCased : Bool} {cs : List Char} {d : Char}
    (h : d ∈ lowerFrom afterCased cs) : ∃ c ∈ cs, Follows d c := by
  induction cs generalizing afterCased with
  | nil => cases h
  | cons c cs ih =>
      rw [lowerFrom_cons] at h
      rcases List.mem_append.mp h with h | h
      · exact ⟨c, by simp, follows_of_mem_smallForm h⟩
      · obtain ⟨b, hb, hfollows⟩ := ih h
        exact ⟨b, by simp [hb], hfollows⟩

theorem exists_mem_lowerFrom {afterCased : Bool} {cs : List Char} {c : Char} (h : c ∈ cs) :
    ∃ d ∈ lowerFrom afterCased cs, Follows d c := by
  induction cs generalizing afterCased with
  | nil => cases h
  | cons b cs ih =>
      rw [lowerFrom_cons]
      rcases List.mem_cons.mp h with rfl | h
      · obtain ⟨d, hd⟩ := List.exists_mem_of_ne_nil _ (smallForm_ne_nil afterCased c cs)
        exact ⟨d, by simp [hd], follows_of_mem_smallForm hd⟩
      · obtain ⟨d, hd, hfollows⟩ := ih h
        exact ⟨d, List.mem_append_right _ hd, hfollows⟩

theorem lowerFrom_eq_self {afterCased : Bool} {cs : List Char} (h : ∀ c ∈ cs, Settled c) :
    lowerFrom afterCased cs = cs := by
  induction cs generalizing afterCased with
  | nil => rfl
  | cons c cs ih =>
      obtain ⟨hlower, hsigma⟩ := h c (by simp)
      rw [lowerFrom_cons, smallForm, if_neg hsigma, hlower, ih fun b hb => h b (by simp [hb])]
      rfl

/-- A text in small letters stays as it is. -/
theorem lowercase_lowercase (s : String) : lowercase (lowercase s) = lowercase s := by
  rw [lowercase, lowercase, String.toList_ofList, lowerFrom_eq_self]
  intro d hd
  obtain ⟨c, -, hsettled, -⟩ := mem_lowerFrom hd
  exact hsettled

theorem mark_of_mem_lowercase {s : String} {d : Char} (hmark : isMark d = true)
    (h : d ∈ (lowercase s).toList) : d ∈ s.toList := by
  rw [lowercase, String.toList_ofList] at h
  obtain ⟨c, hc, -, heq⟩ := mem_lowerFrom h
  exact heq hmark ▸ hc

theorem lowercase_eq_empty_iff {s : String} : lowercase s = "" ↔ s = "" := by
  rw [← String.toList_eq_nil_iff, ← String.toList_eq_nil_iff, lowercase, String.toList_ofList]
  cases hs : s.toList with
  | nil => simp [lowerFrom]
  | cons c cs => simp [lowerFrom_cons, smallForm_ne_nil]

/-- Nothing but dots becomes dots. -/
theorem eq_of_lowercase_dots {s : String} (h : ∀ d ∈ (lowercase s).toList, d = '.') :
    lowercase s = s := by
  have hdots : ∀ c ∈ s.toList, Settled c := by
    intro c hc
    obtain ⟨d, hd, hsettled, hmark⟩ := exists_mem_lowerFrom hc
    have hdot : d = '.' := h d (by rwa [lowercase, String.toList_ofList])
    rw [← hmark (by rw [hdot]; decide)]
    exact hsettled
  rw [lowercase, lowerFrom_eq_self hdots, String.ofList_toList]

end ArchiveOverlay.Text
