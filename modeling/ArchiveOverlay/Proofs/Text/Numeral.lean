import ArchiveOverlay.Text.Blank
import ArchiveOverlay.Text.Decimal
import Mathlib.Data.List.Induction
import Mathlib.Data.Nat.Digits.Defs

namespace ArchiveOverlay.Text

/-- Decimal digits, one at least. -/
structure IsNumeral (digits : List Char) : Prop where
  ne_nil : digits ≠ []
  digit : ∀ c ∈ digits, '0' ≤ c ∧ c ≤ '9'

/-- The number that digits denote: each counts by its place, and the last counts ones. -/
def placeValue (digits : List Char) : Nat :=
  Nat.ofDigits 10 (digits.reverse.map digitValue)

/-- The number that a text denotes. -/
inductive Denotes : List Char → Int → Prop where
  | unsigned {digits : List Char} (h : IsNumeral digits) : Denotes digits (placeValue digits)
  | plus {digits : List Char} (h : IsNumeral digits) : Denotes ('+' :: digits) (placeValue digits)
  | minus {digits : List Char} (h : IsNumeral digits) :
    Denotes ('-' :: digits) (-placeValue digits)

theorem ofDigits_eq_placeValue (digits : List Char) : ofDigits digits = placeValue digits := by
  induction digits using List.reverseRecOn with
  | nil => rfl
  | append_singleton digits c ih =>
      rw [ofDigits, List.foldl_append, ← ofDigits, ih, placeValue, placeValue, List.reverse_concat,
        List.map_cons, Nat.ofDigits_cons]
      exact Nat.add_comm _ _

theorem isDigit_iff {c : Char} : isDigit c = true ↔ '0' ≤ c ∧ c ≤ '9' := by
  simp [isDigit]

theorem natural?_eq_some_iff {s : List Char} {n : Nat} :
    natural? s = some n ↔ IsNumeral s ∧ n = placeValue s := by
  rw [natural?, ofDigits_eq_placeValue]
  constructor
  · intro h
    split at h
    next hdigits =>
      have hall : ∀ c ∈ s, '0' ≤ c ∧ c ≤ '9' := fun c hc =>
        isDigit_iff.mp (List.all_eq_true.mp hdigits.2 c hc)
      exact ⟨⟨hdigits.1, hall⟩, (Option.some.inj h).symm⟩
    · cases h
  · rintro ⟨hnumeral, rfl⟩
    have hall : s.all isDigit = true :=
      List.all_eq_true.mpr fun c hc => isDigit_iff.mpr (hnumeral.digit c hc)
    rw [if_pos ⟨hnumeral.ne_nil, hall⟩]

theorem IsNumeral.head_ne {c : Char} {s : List Char} (h : IsNumeral (c :: s)) :
    c ≠ '+' ∧ c ≠ '-' := by
  have hdigit := h.digit c List.mem_cons_self
  constructor <;>
  · rintro rfl
    revert hdigit
    decide

theorem integer?_eq_some_iff {s : List Char} {n : Int} : integer? s = some n ↔ Denotes s n := by
  constructor
  · intro h
    unfold integer? at h
    split at h <;> obtain ⟨m, hm, rfl⟩ := Option.map_eq_some_iff.mp h <;>
      obtain ⟨hnumeral, rfl⟩ := natural?_eq_some_iff.mp hm
    · exact .plus hnumeral
    · exact .minus hnumeral
    · exact .unsigned hnumeral
  · intro h
    have hread : ∀ digits, IsNumeral digits → natural? digits = some (placeValue digits) :=
      fun digits hdigits => natural?_eq_some_iff.mpr ⟨hdigits, rfl⟩
    cases h with
    | plus hnumeral => rw [integer?, hread _ hnumeral]; rfl
    | minus hnumeral => rw [integer?, hread _ hnumeral]; rfl
    | unsigned hnumeral =>
        -- A numeral has no sign in front, so it is read as it stands.
        have hread := hread _ hnumeral
        unfold integer?
        split
        · exact absurd rfl hnumeral.head_ne.1
        · exact absurd rfl hnumeral.head_ne.2
        · rw [hread]; rfl

theorem isNumeral_toDigits (n : Nat) : IsNumeral (Nat.toDigits 10 n) where
  ne_nil := Nat.toDigits_ne_nil
  digit := fun c hc => by
    have hdigit := Nat.isDigit_of_mem_toDigits (by decide) (by decide) hc
    simpa [Char.isDigit, Char.le_def] using hdigit

theorem placeValue_toDigits (n : Nat) : placeValue (Nat.toDigits 10 n) = n := by
  have hread := @Nat.ofDigitChars_ten_toDigits n
  rw [Nat.ofDigitChars_eq_foldl] at hread
  rw [← ofDigits_eq_placeValue]
  exact hread

/-- The text that is written for a number denotes it. -/
theorem denotes_signedDecimal (n : Int) : Denotes (signedDecimal n).toList n := by
  have hnumeral := isNumeral_toDigits n.natAbs
  rw [signedDecimal]
  split
  next hneg =>
    have hminus := Denotes.minus hnumeral
    have hvalue : -(n.natAbs : Int) = n := by omega
    rw [placeValue_toDigits, hvalue] at hminus
    simpa [decimal] using hminus
  next hneg =>
    have hunsigned := Denotes.unsigned hnumeral
    have hvalue : (n.natAbs : Int) = n := by omega
    rw [placeValue_toDigits, hvalue] at hunsigned
    simpa [decimal] using hunsigned

theorem Denotes.ne_nil {s : List Char} {n : Int} (h : Denotes s n) : s ≠ [] := by
  cases h with
  | unsigned hnumeral => exact hnumeral.ne_nil
  | plus => simp
  | minus => simp

/-- A number in writing is a sign or digits throughout. -/
theorem Denotes.mem {s : List Char} {n : Int} (h : Denotes s n) {c : Char} (hc : c ∈ s) :
    c = '+' ∨ c = '-' ∨ '0' ≤ c ∧ c ≤ '9' := by
  cases h with
  | unsigned hnumeral => exact .inr (.inr (hnumeral.digit c hc))
  | plus hnumeral =>
      rcases List.mem_cons.mp hc with rfl | hc
      · exact .inl rfl
      · exact .inr (.inr (hnumeral.digit c hc))
  | minus hnumeral =>
      rcases List.mem_cons.mp hc with rfl | hc
      · exact .inr (.inl rfl)
      · exact .inr (.inr (hnumeral.digit c hc))

/-- White space and nothing else. -/
def Blank (s : List Char) : Prop :=
  ∀ c ∈ s, isBlank c = true

theorem Denotes.not_blank {s : List Char} {n : Int} (h : Denotes s n) {c : Char} (hc : c ∈ s) :
    isBlank c = false := by
  rcases h.mem hc with rfl | rfl | ⟨hlow, hhigh⟩
  · decide
  · decide
  · have hlow : 48 ≤ c.toNat := hlow
    have hhigh : c.toNat ≤ 57 := hhigh
    simp only [isBlank, Bool.or_eq_false_iff, Bool.and_eq_false_iff, decide_eq_false_iff_not]
    omega

/-- A text is what trimming leaves of it, with white space around. -/
theorem exists_trim (s : List Char) :
    ∃ front back, Blank front ∧ Blank back ∧ s = front ++ trim s ++ back := by
  have hblank : ∀ t : List Char, Blank (t.takeWhile isBlank) := fun t c hc =>
    List.all_eq_true.mp List.all_takeWhile c hc
  refine ⟨s.takeWhile isBlank, ((s.dropWhile isBlank).reverse.takeWhile isBlank).reverse,
    hblank s, ?_, ?_⟩
  · intro c hc
    exact hblank _ c (List.mem_reverse.mp hc)
  · rw [trim, List.append_assoc, ← List.reverse_append, List.takeWhile_append_dropWhile,
      List.reverse_reverse, List.takeWhile_append_dropWhile]

theorem dropWhile_blank {front s : List Char} (hfront : Blank front)
    (hs : ∀ c ∈ s.head?, isBlank c = false) : (front ++ s).dropWhile isBlank = s := by
  rw [List.dropWhile_append_of_pos hfront]
  cases s with
  | nil => rfl
  | cons c s => exact List.dropWhile_cons_of_neg (by simp [hs c rfl])

theorem trim_surrounded {front s back : List Char} (hfront : Blank front) (hback : Blank back)
    (hne : s ≠ []) (hs : ∀ c ∈ s, isBlank c = false) : trim (front ++ s ++ back) = s := by
  have hhead : ∀ c ∈ (s ++ back).head?, isBlank c = false := by
    obtain ⟨first, rest, rfl⟩ := List.exists_cons_of_ne_nil hne
    rintro c ⟨⟩
    exact hs first List.mem_cons_self
  have hlast : ∀ c ∈ s.reverse.head?, isBlank c = false := fun c hc =>
    hs c (List.mem_reverse.mp (List.mem_of_head? hc))
  have hback' : Blank back.reverse := fun c hc => hback c (List.mem_reverse.mp hc)
  rw [trim, List.append_assoc, dropWhile_blank hfront hhead, List.reverse_append,
    dropWhile_blank hback' hlast, List.reverse_reverse]

/-- Trimmed texts that denote a number are those with white space around it. -/
theorem denotes_trim_iff {s : List Char} {n : Int} :
    Denotes (trim s) n ↔ ∃ front number back, Blank front ∧ Blank back ∧ Denotes number n ∧
      s = front ++ number ++ back := by
  constructor
  · intro h
    obtain ⟨front, back, hfront, hback, hs⟩ := exists_trim s
    exact ⟨front, trim s, back, hfront, hback, h, hs⟩
  · rintro ⟨front, number, back, hfront, hback, hnumber, rfl⟩
    rwa [trim_surrounded hfront hback hnumber.ne_nil fun c => hnumber.not_blank]

end ArchiveOverlay.Text
