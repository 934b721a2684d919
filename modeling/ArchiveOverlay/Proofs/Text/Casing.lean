import ArchiveOverlay.Proofs.Text.Lowercase
import Mathlib.Data.List.Chain
import Mathlib.Data.List.Forall2

/-!
Texts that differ in case only. Main statement: where two texts agree letter by letter but for
case, their small forms are the same just if they have the same final sigmas.
-/

namespace ArchiveOverlay.Text

section Ranges

/-- The code points of a range as the bits of a number. -/
def CodeRange.bits (range : CodeRange) : Nat :=
  (2 ^ (range.2 + 1 - range.1) - 1) <<< range.1

/-- The code points of a row of ranges as the bits of a number. -/
def rangeBits (ranges : List CodeRange) : Nat :=
  ranges.foldl (fun set range => set ||| CodeRange.bits range) 0

theorem testBit_codeRange (range : CodeRange) (n : Nat) :
    (CodeRange.bits range).testBit n = true ↔ range.1 ≤ n ∧ n ≤ range.2 := by
  rw [CodeRange.bits, Nat.testBit_shiftLeft, Nat.testBit_two_pow_sub_one, Bool.and_eq_true,
    decide_eq_true_eq, decide_eq_true_eq]
  omega

theorem testBit_foldl_ranges (ranges : List CodeRange) (set n : Nat) :
    (ranges.foldl (fun set range => set ||| CodeRange.bits range) set).testBit n = true ↔
      set.testBit n = true ∨ ∃ range ∈ ranges, range.1 ≤ n ∧ n ≤ range.2 := by
  induction ranges generalizing set with
  | nil => simp
  | cons range ranges ih =>
      rw [List.foldl_cons, ih, Nat.testBit_or, Bool.or_eq_true, testBit_codeRange, or_assoc]
      simp

theorem testBit_rangeBits (ranges : List CodeRange) (n : Nat) :
    (rangeBits ranges).testBit n = true ↔ ∃ range ∈ ranges, range.1 ≤ n ∧ n ≤ range.2 := by
  rw [rangeBits, testBit_foldl_ranges]
  simp

theorem inRanges_iff {ranges : List CodeRange} (h : ranges.Pairwise fun r s => r.1 ≤ s.1)
    (n : Nat) :
    inRanges n ranges = true ↔ ∃ range ∈ ranges, range.1 ≤ n ∧ n ≤ range.2 := by
  induction ranges with
  | nil => simp [inRanges]
  | cons range ranges ih =>
      obtain ⟨hfirst, hrest⟩ := List.pairwise_cons.mp h
      rw [inRanges, List.exists_mem_cons_iff]
      split
      next hbefore =>
        -- Nothing further on can hold what comes before the first range.
        constructor
        · intro hfalse
          cases hfalse
        · rintro (hhere | ⟨other, hother, hlow, -⟩)
          · omega
          · have := hfirst other hother
            omega
      next hbefore =>
        split
        next hlast => exact ⟨fun _ => .inl ⟨by omega, hlast⟩, fun _ => rfl⟩
        next hlast =>
          rw [ih hrest, or_iff_right]
          omega

theorem pairwise_of_isChain {ranges : List CodeRange}
    (h : (ranges.map Prod.fst).IsChain (· ≤ ·)) : ranges.Pairwise fun r s => r.1 ≤ s.1 :=
  List.pairwise_map.mp (List.isChain_iff_pairwise.mp h)

theorem casedRanges_ascending : (casedRanges.map Prod.fst).IsChain (· ≤ ·) := by
  decide +kernel

theorem caseIgnorableRanges_ascending : (caseIgnorableRanges.map Prod.fst).IsChain (· ≤ ·) := by
  decide +kernel

theorem letters_cased :
    bits (capitals ++ smalls) &&& rangeBits casedRanges = bits (capitals ++ smalls) := by
  decide +kernel

theorem letters_not_ignorable :
    bits (capitals ++ smalls) &&& rangeBits caseIgnorableRanges = 0 := by
  decide +kernel

end Ranges

/-- Letters that come in two cases have a case, and no case rule looks through them. -/
theorem inRanges_of_letter {n : Nat} (h : n ∈ capitals ++ smalls) :
    inRanges n casedRanges = true ∧ inRanges n caseIgnorableRanges = false := by
  have hbit : (bits (capitals ++ smalls)).testBit n = true := by
    rw [testBit_bits, decide_eq_true h]
  constructor
  · rw [← letters_cased, Nat.testBit_and, Bool.and_eq_true] at hbit
    rw [inRanges_iff (pairwise_of_isChain casedRanges_ascending), ← testBit_rangeBits]
    exact hbit.2
  · rw [← Bool.not_eq_true, inRanges_iff (pairwise_of_isChain caseIgnorableRanges_ascending),
      ← testBit_rangeBits]
    intro hignorable
    have hboth : (bits (capitals ++ smalls) &&& rangeBits caseIgnorableRanges).testBit n =
        true := by
      rw [Nat.testBit_and, hbit, hignorable]
      rfl
    rw [letters_not_ignorable, Nat.zero_testBit] at hboth
    cases hboth

theorem letters_of_partner? {n m : Nat} (h : partner? n lowerRuns = some m) :
    n ∈ capitals ++ smalls ∧ m ∈ capitals ++ smalls := by
  obtain ⟨run, hrun, hletters, -, -, rfl⟩ := partner?_eq_some h
  constructor
  · refine List.mem_append_left _ (List.mem_cons_of_mem _ ?_)
    exact List.mem_flatMap.mpr ⟨run, hrun, hletters⟩
  · refine List.mem_append_right _ ?_
    exact List.mem_flatMap.mpr ⟨run, hrun, List.mem_map.mpr ⟨n, hletters, rfl⟩⟩

/-- What the case rules see of a character. -/
def caseClass (c : Char) : Bool × Bool :=
  (isCased c, isCaseIgnorable c)

theorem caseClass_of_letter {c : Char} (h : c.toNat ∈ capitals ++ smalls) :
    caseClass c = (true, false) := by
  obtain ⟨hcased, hignorable⟩ := inRanges_of_letter h
  rw [caseClass, isCased, isCaseIgnorable, hcased, hignorable]

theorem ascii_caseClass : ((List.range 0x80).all fun n =>
    (lowerChar (Char.ofNat n)).head?.map caseClass = some (caseClass (Char.ofNat n))) = true := by
  decide +kernel

/-- A small form starts with a character of the same kind as the letter that it is the form of. -/
theorem caseClass_lowerChar (c : Char) :
    (lowerChar c).head?.map caseClass = some (caseClass c) := by
  by_cases hascii : c.toNat < 0x80
  · have hrow := List.all_eq_true.mp ascii_caseClass c.toNat (List.mem_range.mpr hascii)
    rw [Char.ofNat_toNat] at hrow
    exact of_decide_eq_true hrow
  · rw [lowerChar, if_neg hascii]
    split
    next hdotted =>
      have hc : c = Char.ofNat 0x130 := by rw [← hdotted, Char.ofNat_toNat]
      rw [hc]
      decide +kernel
    next hdotted =>
      split
      next m hpartner =>
        obtain ⟨hcapital, hsmall⟩ := letters_of_partner? hpartner
        have hm : (Char.ofNat m).toNat = m := by
          apply toNat_ofNat_of_valid
          have hrange := (partner?_lowerRuns hpartner).2
          omega
        rw [List.head?_cons, Option.map_some, caseClass_of_letter hcapital,
          caseClass_of_letter (by rwa [hm])]
      next hpartner => rfl

/-- The letter of which a character is a form. Sigma has two small forms. -/
def letterOf (c : Char) : List Char :=
  if c = 'ς' then ['σ'] else lowerChar c

theorem letterOf_of_ne {c : Char} (h : c ≠ 'ς') : letterOf c = lowerChar c :=
  if_neg h

theorem caseClass_letterOf (c : Char) : (letterOf c).head?.map caseClass = some (caseClass c) := by
  rw [letterOf]
  split
  next hsigma =>
    rw [hsigma]
    decide +kernel
  next => exact caseClass_lowerChar c

/-- That two characters are the same letter but for case. -/
def SameLetter (c d : Char) : Prop :=
  letterOf c = letterOf d

instance (c d : Char) : Decidable (SameLetter c d) :=
  inferInstanceAs (Decidable (_ = _))

theorem ascii_partners : ((List.range 0x80).all fun n =>
    (partner? n lowerRuns).all fun m => lowerChar (Char.ofNat n) = [Char.ofNat m]) = true := by
  decide +kernel

theorem lowerChar_of_partner? {c : Char} {m : Nat} (h : partner? c.toNat lowerRuns = some m) :
    lowerChar c = [Char.ofNat m] := by
  by_cases hascii : c.toNat < 0x80
  · have hrow := List.all_eq_true.mp ascii_partners c.toNat (List.mem_range.mpr hascii)
    rw [h, Char.ofNat_toNat] at hrow
    exact of_decide_eq_true hrow
  · have hdotted : c.toNat ≠ 0x130 := by
      intro hc
      have hnone : partner? 0x130 lowerRuns = none := by decide +kernel
      rw [hc, hnone] at h
      cases h
    rw [lowerChar, if_neg hascii, if_neg hdotted, h]

theorem final_not_paired : 'ς'.toNat ∉ capitals ++ smalls := by
  decide +kernel

/-- A capital letter and its small letter are the same letter. -/
theorem sameLetter_of_partner? {c d : Char} (h : partner? c.toNat lowerRuns = some d.toNat) :
    SameLetter c d := by
  obtain ⟨hcapital, hsmall⟩ := letters_of_partner? h
  have hne : ∀ e : Char, e.toNat ∈ capitals ++ smalls → e ≠ 'ς' := by
    rintro e he rfl
    exact final_not_paired he
  obtain ⟨hd, hrange⟩ := partner?_lowerRuns h
  obtain ⟨⟨hsettled, -⟩, -⟩ := follows_of_small c hd hrange
  rw [Char.ofNat_toNat] at hsettled
  rw [SameLetter, letterOf_of_ne (hne c hcapital), letterOf_of_ne (hne d hsmall),
    lowerChar_of_partner? h, Char.ofNat_toNat, hsettled]

theorem letterOf_mark {d : Char} (h : isMark d = true) : letterOf d = [d] := by
  have hmarks : ['/', '\\', '.', '\x00'].all (fun d => decide (letterOf d = [d])) = true := by
    decide +kernel
  refine of_decide_eq_true (List.all_eq_true.mp hmarks d ?_)
  simpa [isMark, or_assoc] using h

/-- A form of a letter that is a mark is the letter itself. -/
theorem mark_of_mem_letterOf {c d : Char} (h : d ∈ letterOf c) (hmark : isMark d = true) :
    d = c := by
  have hsigma : d ≠ 'σ' := by
    rintro rfl
    exact absurd hmark (by decide)
  rw [letterOf] at h
  split at h
  · exact absurd (List.mem_singleton.mp h) hsigma
  · by_cases hc : c = 'Σ'
    · subst hc
      exact absurd (List.mem_singleton.mp h) hsigma
    · exact (follows_of_mem_lowerChar hc h).2 hmark

namespace SameLetter

variable {c d : Char}

theorem symm (h : SameLetter c d) : SameLetter d c :=
  Eq.symm h

theorem caseClass_eq (h : SameLetter c d) : caseClass c = caseClass d := by
  have hclass := caseClass_letterOf c
  rw [show letterOf c = letterOf d from h, caseClass_letterOf d] at hclass
  exact (Option.some.inj hclass).symm

theorem mark_eq (h : SameLetter c d) (hmark : isMark d = true) : c = d := by
  have hmem : d ∈ letterOf c := by
    rw [show letterOf c = letterOf d from h, letterOf_mark hmark]
    exact List.mem_singleton_self d
  exact (mark_of_mem_letterOf hmem hmark).symm

end SameLetter

theorem startsCased_cons (c : Char) (rest : List Char) :
    startsCased (c :: rest) = if (caseClass c).2 then startsCased rest else (caseClass c).1 :=
  rfl

/-- That a text has a final sigma at a place: it is written so, or it is a capital one that ends a
word. Then the nearest character before it that case rules do not look through has a case, and the
nearest one behind it has none. The row `before` is what stands before the text, read backwards. -/
def FinalSigma (before cs : List Char) (n : Nat) : Prop :=
  cs[n]? = some 'ς' ∨ cs[n]? = some 'Σ' ∧ startsCased ((cs.take n).reverse ++ before) = true ∧
    startsCased (cs.drop (n + 1)) = false

instance (before cs : List Char) (n : Nat) : Decidable (FinalSigma before cs n) :=
  inferInstanceAs (Decidable (_ ∨ _ ∧ _ ∧ _))

section FinalSigma

variable {before before' s t : List Char} {c d : Char}

theorem finalSigma_zero : FinalSigma before (c :: s) 0 ↔
    c = 'ς' ∨ c = 'Σ' ∧ startsCased before = true ∧ startsCased s = false := by
  simp [FinalSigma]

theorem finalSigma_succ {n : Nat} :
    FinalSigma before (c :: s) (n + 1) ↔ FinalSigma (c :: before) s n := by
  simp [FinalSigma]

theorem smallForm_of_final (h : FinalSigma before (c :: s) 0) :
    smallForm (startsCased before) c s = ['ς'] := by
  rcases finalSigma_zero.mp h with rfl | ⟨rfl, hbefore, hbehind⟩
  · rfl
  · rw [smallForm, if_pos rfl, hbefore, hbehind]
    rfl

theorem letterOf_of_final (h : FinalSigma before (c :: s) 0) : letterOf c = ['σ'] := by
  rcases finalSigma_zero.mp h with rfl | ⟨rfl, -, -⟩
  · rfl
  · rfl

theorem smallForm_of_not_final (h : ¬ FinalSigma before (c :: s) 0) :
    smallForm (startsCased before) c s = letterOf c := by
  rw [finalSigma_zero, not_or] at h
  rw [letterOf_of_ne h.1, smallForm]
  split
  next hsigma =>
    subst hsigma
    cases hbefore : startsCased before with
    | false => rfl
    | true =>
        cases hbehind : startsCased s with
        | false => exact absurd ⟨rfl, hbefore, hbehind⟩ h.2
        | true => rfl
  next => rfl

theorem length_smallForm (before : List Char) (c : Char) (s : List Char) :
    (smallForm (startsCased before) c s).length = (letterOf c).length := by
  by_cases h : FinalSigma before (c :: s) 0
  · rw [smallForm_of_final h, letterOf_of_final h]
    rfl
  · rw [smallForm_of_not_final h]

/-- The small forms of one letter differ only where one of them is final. -/
theorem smallForm_eq_iff (hletter : SameLetter c d) :
    smallForm (startsCased before) c s = smallForm (startsCased before') d t ↔
      (FinalSigma before (c :: s) 0 ↔ FinalSigma before' (d :: t) 0) := by
  have hsame : letterOf c = letterOf d := hletter
  by_cases hc : FinalSigma before (c :: s) 0
  · by_cases hd : FinalSigma before' (d :: t) 0
    · simp [smallForm_of_final hc, smallForm_of_final hd, hc, hd]
    · rw [smallForm_of_final hc, smallForm_of_not_final hd, ← hsame, letterOf_of_final hc]
      simp [hc, hd]
  · by_cases hd : FinalSigma before' (d :: t) 0
    · rw [smallForm_of_not_final hc, smallForm_of_final hd, hsame, letterOf_of_final hd]
      simp [hc, hd]
    · simp [smallForm_of_not_final hc, smallForm_of_not_final hd, hsame, hc, hd]

theorem lowerFrom_eq_iff (h : List.Forall₂ SameLetter s t)
    (hbefore : startsCased before = startsCased before') :
    lowerFrom (startsCased before) s = lowerFrom (startsCased before') t ↔
      ∀ n < s.length, (FinalSigma before s n ↔ FinalSigma before' t n) := by
  induction h generalizing before before' with
  | nil => simp [lowerFrom]
  | @cons c d s t hletter hrest ih =>
      have hnext : startsCased (c :: before) = startsCased (d :: before') := by
        rw [startsCased_cons, startsCased_cons, hletter.caseClass_eq, hbefore]
      have hlength : (smallForm (startsCased before) c s).length =
          (smallForm (startsCased before') d t).length := by
        rw [length_smallForm, length_smallForm, show letterOf c = letterOf d from hletter]
      have hsplit :
          lowerFrom (startsCased before) (c :: s) = lowerFrom (startsCased before') (d :: t) ↔
            smallForm (startsCased before) c s = smallForm (startsCased before') d t ∧
              lowerFrom (startsCased (c :: before)) s =
                lowerFrom (startsCased (d :: before')) t := by
        rw [lowerFrom_cons, lowerFrom_cons]
        refine ⟨fun heq => List.append_inj heq hlength, ?_⟩
        rintro ⟨hform, hforms⟩
        exact congrArg₂ (· ++ ·) hform hforms
      rw [hsplit, smallForm_eq_iff hletter, ih hnext]
      constructor
      · rintro ⟨hzero, hsucc⟩ n hn
        cases n with
        | zero => exact hzero
        | succ n =>
            rw [finalSigma_succ, finalSigma_succ]
            exact hsucc n (Nat.lt_of_succ_lt_succ hn)
      · intro hall
        refine ⟨hall 0 (Nat.succ_pos _), ?_⟩
        intro n hn
        rw [← finalSigma_succ, ← finalSigma_succ]
        exact hall (n + 1) (Nat.succ_lt_succ hn)

end FinalSigma

/-- That two texts have their final sigmas at the same places. -/
def SameFinals (a b : String) : Prop :=
  ∀ n < a.toList.length, (FinalSigma [] a.toList n ↔ FinalSigma [] b.toList n)

instance (a b : String) : Decidable (SameFinals a b) :=
  inferInstanceAs (Decidable (∀ n < a.toList.length, _))

/-- Texts that are the same but for case have the same small form just if their final sigmas
agree. -/
theorem lowercase_eq_iff {a b : String} (h : List.Forall₂ SameLetter a.toList b.toList) :
    lowercase a = lowercase b ↔ SameFinals a b := by
  rw [lowercase, lowercase, String.ofList_inj]
  exact lowerFrom_eq_iff h (Eq.refl (startsCased []))

/-- That a character ends every word and stays as it is. -/
structure Breaks (c : Char) : Prop where
  caseClass_eq : caseClass c = (false, false)
  settled : Settled c

section Breaks

variable {c : Char}

theorem startsCased_append (hc : Breaks c) (s t : List Char) :
    startsCased (s ++ c :: t) = startsCased s := by
  induction s with
  | nil => rw [List.nil_append, startsCased_cons, hc.caseClass_eq]; rfl
  | cons d s ih => rw [List.cons_append, startsCased_cons, startsCased_cons, ih]

/-- The words on both sides of a break are lowered on their own. -/
theorem lowerFrom_append (hc : Breaks c) (afterCased : Bool) (s t : List Char) :
    lowerFrom afterCased (s ++ c :: t) = lowerFrom afterCased s ++ c :: lowerFrom false t := by
  induction s generalizing afterCased with
  | nil =>
      have hclass := Prod.mk.inj hc.caseClass_eq
      obtain ⟨hlower, hsigma⟩ := hc.settled
      rw [List.nil_append, lowerFrom_cons, smallForm, if_neg hsigma, hlower, hclass.1, hclass.2]
      rfl
  | cons d s ih =>
      have hform : smallForm afterCased d (s ++ c :: t) = smallForm afterCased d s := by
        rw [smallForm, startsCased_append hc, smallForm]
      rw [List.cons_append, lowerFrom_cons, hform, ih, lowerFrom_cons, List.append_assoc]

end Breaks

end ArchiveOverlay.Text
