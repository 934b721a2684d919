import ArchiveOverlay.Report.Size
import Mathlib.Algebra.Order.Field.Rat
import Mathlib.Tactic.IntervalCases
import Mathlib.Tactic.Linarith
import Mathlib.Tactic.NormNum
import Mathlib.Tactic.Ring

namespace ArchiveOverlay

namespace Report

/-- A rounded quotient is not further than half from the quotient. -/
theorem roundedQuotient_bounds (n : Nat) {d : Nat} (hd : 0 < d) :
    2 * n ≤ 2 * (roundedQuotient n d * d) + d ∧ 2 * (roundedQuotient n d * d) ≤ 2 * n + d := by
  have hn := Nat.div_add_mod' n d
  have hr := Nat.mod_lt n hd
  have hup : (n / d + 1) * d = n / d * d + d := Nat.succ_mul _ _
  rw [roundedQuotient]
  split_ifs <;> omega

theorem toPrecision_of_lt {n : Nat} (h : n < 2 ^ 53) : toPrecision n = n := by
  have hlog : Nat.log2 n - 52 = 0 := by
    rcases Nat.eq_zero_or_pos n with rfl | hpos
    · rfl
    · have hlt := (Nat.log2_lt (Nat.ne_of_gt hpos)).mpr h
      omega
  rw [toPrecision, hlog]
  simp [roundedQuotient, Nat.mod_one]

/-- The unit of a size is the largest that it reaches. -/
theorem unitPower_bounds {n : Nat} (h : 1024 ≤ n) :
    1 ≤ unitPower n ∧ unitPower n ≤ 4 ∧ 1024 ^ unitPower n ≤ n ∧
      (unitPower n < 4 → n < 1024 ^ (unitPower n + 1)) := by
  unfold unitPower
  split_ifs <;> omega

/-- That a text shows a number with one decimal place, and behind it a unit. -/
structure ShowsSize (text : String) (shown : ℚ) (power : Nat) : Prop where
  unit : 1 ≤ power ∧ power ≤ 4
  digits : ∃ whole tenth : Nat, tenth < 10 ∧ shown = whole + tenth / 10 ∧
    text = Text.decimal whole ++ "." ++ Text.decimal tenth ++ " " ++ unitName power

theorem showsSize_size {bytes : Nat} (hlow : 1024 ≤ bytes) (hhigh : bytes < 2 ^ 53) :
    ShowsSize (size bytes) (sizeTenths bytes / 10) (unitPower bytes) := by
  obtain ⟨hone, hfour, -, -⟩ := unitPower_bounds hlow
  refine ⟨⟨hone, hfour⟩, sizeTenths bytes / 10, sizeTenths bytes % 10,
    Nat.mod_lt _ (by decide), ?_, ?_⟩
  · have hsplit : ((10 * (sizeTenths bytes / 10) + sizeTenths bytes % 10 : Nat) : ℚ) =
        sizeTenths bytes :=
      congrArg Nat.cast (Nat.div_add_mod _ 10)
    push_cast at hsplit
    linarith
  · rw [size, if_neg (Nat.not_lt.mpr hlow), toPrecision_of_lt hhigh]

theorem sizeTenths_bounds {bytes : Nat} (hhigh : bytes < 2 ^ 53) :
    20 * bytes ≤ 2 * (sizeTenths bytes * 1024 ^ unitPower bytes) + 1024 ^ unitPower bytes ∧
      2 * (sizeTenths bytes * 1024 ^ unitPower bytes) ≤ 20 * bytes + 1024 ^ unitPower bytes := by
  have hpos : 0 < 1024 ^ unitPower bytes := Nat.pow_pos (by decide)
  have hbounds := roundedQuotient_bounds (10 * bytes) hpos
  have htenths : sizeTenths bytes = roundedQuotient (10 * bytes) (1024 ^ unitPower bytes) := by
    rw [sizeTenths, toPrecision_of_lt hhigh]
    rfl
  rw [← htenths] at hbounds
  omega

/-- There is at least one unit, and at most as many as make up the next one. -/
theorem sizeTenths_range {bytes : Nat} (hlow : 1024 ≤ bytes) (hhigh : bytes < 2 ^ 53) :
    10 ≤ sizeTenths bytes ∧ (unitPower bytes < 4 → sizeTenths bytes ≤ 10240) := by
  obtain ⟨-, -, hreached, hnext⟩ := unitPower_bounds hlow
  obtain ⟨hbelow, habove⟩ := sizeTenths_bounds hhigh
  rw [Nat.pow_succ] at hnext
  generalize 1024 ^ unitPower bytes = unit at *
  constructor
  · by_contra hfew
    have hproduct : sizeTenths bytes * unit ≤ 9 * unit := Nat.mul_le_mul_right _ (by omega)
    omega
  · intro hpower
    have hless := hnext hpower
    by_contra hmany
    have hproduct : 10241 * unit ≤ sizeTenths bytes * unit := Nat.mul_le_mul_right _ (by omega)
    omega

/-- The number is rounded up to the next unit from a twentieth of the unit below it on. -/
theorem sizeTenths_eq_iff {bytes : Nat} (hlow : 1024 ≤ bytes) (hhigh : bytes < 2 ^ 53)
    (hpower : unitPower bytes < 4) :
    sizeTenths bytes = 10240 ↔
      20 * 1024 ^ (unitPower bytes + 1) ≤ 20 * bytes + 1024 ^ unitPower bytes := by
  obtain ⟨hone, -, -, -⟩ := unitPower_bounds hlow
  obtain ⟨hbelow, habove⟩ := sizeTenths_bounds hhigh
  have hmost := (sizeTenths_range hlow hhigh).2 hpower
  -- No size is just half a tenth away, since a unit is no multiple of five.
  have htie : 20 * bytes ≠ 20479 * 1024 ^ unitPower bytes := by
    generalize unitPower bytes = power at hone hpower
    interval_cases power <;> omega
  rw [Nat.pow_succ]
  generalize 1024 ^ unitPower bytes = unit at *
  constructor
  · intro htenths
    rw [htenths] at habove
    omega
  · intro hclose
    by_contra hne
    have hproduct : sizeTenths bytes * unit ≤ 10239 * unit := Nat.mul_le_mul_right _ (by omega)
    omega

end Report

/-- A size from 1024 bytes on is shown in the largest unit that it reaches, with an error of a
twentieth of the unit at most. The number shown is at least one, and below the last unit it is less
than 1024 unless the next unit is a twentieth of the unit away or nearer; then it is just 1024. -/
theorem size_shown (bytes : Nat) (hlow : 1024 ≤ bytes) (hhigh : bytes < 2 ^ 53) :
    ∃ (shown : ℚ) (power : Nat), Report.ShowsSize (Report.size bytes) shown power ∧
      (1024 ^ power ≤ bytes ∧ (power < 4 → bytes < 1024 ^ (power + 1))) ∧
      |shown * 1024 ^ power - bytes| ≤ 1 / 20 * 1024 ^ power ∧ 1 ≤ shown ∧
      (¬ (shown < 1024 ∨ power = 4) ↔
        power < 4 ∧ (1024 : ℚ) ^ (power + 1) - bytes ≤ 1 / 20 * 1024 ^ power) ∧
      (¬ (shown < 1024 ∨ power = 4) → shown = 1024) := by
  obtain ⟨-, hfour, hreached, hnext⟩ := Report.unitPower_bounds hlow
  obtain ⟨hleast, hmost⟩ := Report.sizeTenths_range hlow hhigh
  obtain ⟨hbelow, habove⟩ := Report.sizeTenths_bounds hhigh
  have hbrim := Report.sizeTenths_eq_iff hlow hhigh
  refine ⟨_, _, Report.showsSize_size hlow hhigh, ⟨hreached, hnext⟩, ?_⟩
  generalize Report.sizeTenths bytes = tenths at *
  generalize Report.unitPower bytes = power at *
  have hshown : (tenths / 10 : ℚ) < 1024 ↔ tenths < 10240 := by
    rw [div_lt_iff₀ (by norm_num)]
    norm_num
  have hfull : ¬ ((tenths / 10 : ℚ) < 1024 ∨ power = 4) ↔ power < 4 ∧ tenths = 10240 := by
    rw [hshown]
    omega
  refine ⟨?_, ?_, ?_, ?_⟩
  · have hbelow' : (20 * bytes : ℚ) ≤ 2 * (tenths * 1024 ^ power) + 1024 ^ power := mod_cast hbelow
    have habove' : (2 * (tenths * 1024 ^ power) : ℚ) ≤ 20 * bytes + 1024 ^ power := mod_cast habove
    have hproduct : (tenths / 10 : ℚ) * 1024 ^ power = tenths * 1024 ^ power / 10 := by ring
    rw [hproduct, abs_le]
    constructor <;> linarith
  · have hleast' : (10 : ℚ) ≤ tenths := mod_cast hleast
    linarith
  · rw [hfull, and_congr_right_iff]
    intro hpower
    rw [hbrim hpower, ← Nat.cast_le (α := ℚ)]
    push_cast
    constructor <;> intro h <;> linarith
  · intro h
    rw [(hfull.mp h).2]
    norm_num

/-- One byte less than a mebibyte is shown as 1024.0 kibibytes. -/
theorem size_shown_below_mebibyte :
    Report.size 1048575 = "1024.0 KiB" ∧ Report.ShowsSize (Report.size 1048575) 1024 1 := by
  obtain ⟨shown, power, hshows, ⟨hreached, hnext⟩, -, -, hfull, heq⟩ :=
    size_shown 1048575 (by decide) (by decide)
  obtain rfl : power = 1 := by
    obtain ⟨hone, hfour⟩ := hshows.unit
    interval_cases power
    · rfl
    all_goals omega
  have hband : ¬ (shown < 1024 ∨ 1 = 4) := hfull.mpr (by norm_num)
  rw [heq hband] at hshows
  exact ⟨by decide +kernel, hshows⟩

end ArchiveOverlay
