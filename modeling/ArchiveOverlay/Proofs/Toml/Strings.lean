import ArchiveOverlay.Toml.Document
import ArchiveOverlay.Toml.Write
import Mathlib.Tactic.IntervalCases

namespace ArchiveOverlay.Toml

theorem hexDigit?_digit {k : Nat} (h : k < 16) : hexDigit? (Nat.digitChar k).toUpper = some k := by
  interval_cases k <;> rfl

theorem hexDigits?_hex4 {n : Nat} (h : n < 65536) (rest : List Char) :
    hexDigits? 0 4 (hex4 n ++ rest) = some (n, rest) := by
  have hdigit : ∀ k, hexDigit? (Nat.digitChar (n / Nat.pow 16 k % 16)).toUpper =
      some (n / Nat.pow 16 k % 16) := fun k => hexDigit?_digit (Nat.mod_lt _ (by decide))
  have hvalue : 16 * (16 * (16 * (16 * 0 + n / Nat.pow 16 3 % 16) + n / Nat.pow 16 2 % 16) +
      n / Nat.pow 16 1 % 16) + n / Nat.pow 16 0 % 16 = n := by
    simp only [Nat.pow_eq]
    omega
  simp only [hex4, List.cons_append, List.nil_append, hexDigits?, hdigit, hvalue]

theorem toNat_lt_of_not_isTextChar {c : Char} (h : isTextChar c = false) : c.toNat < 128 := by
  simp only [isTextChar, Bool.or_eq_false_iff, Bool.and_eq_false_iff, decide_eq_false_iff_not] at h
  omega

/-- A character is written as it is, or by an escape that stands for it and joins no lines. -/
theorem escaped_cases (long : Bool) (c : Char) :
    (escaped long c = [c] ∧ c ≠ '\\' ∧ (isTextChar c = true ∨ long = true ∧ c = '\n')) ∨
    ∃ code, escaped long c = '\\' :: code ∧
      ∀ rest, escape? (code ++ rest) = some (c, rest) ∧ joinedLine? (code ++ rest) = none := by
  unfold escaped
  split_ifs with hb ht hn hlong hf hr hslash htext
  · exact .inr ⟨['b'], rfl, fun rest => ⟨by rw [hb]; rfl, rfl⟩⟩
  · exact .inr ⟨['t'], rfl, fun rest => ⟨by rw [ht]; rfl, rfl⟩⟩
  · exact .inl ⟨by rw [hn], by rw [hn]; decide, .inr ⟨hlong, hn⟩⟩
  · exact .inr ⟨['n'], rfl, fun rest => ⟨by rw [hn]; rfl, rfl⟩⟩
  · exact .inr ⟨['f'], rfl, fun rest => ⟨by rw [hf]; rfl, rfl⟩⟩
  · exact .inr ⟨['r'], rfl, fun rest => ⟨by rw [hr]; rfl, rfl⟩⟩
  · exact .inr ⟨['\\'], rfl, fun rest => ⟨by rw [hslash]; rfl, rfl⟩⟩
  · exact .inl ⟨rfl, hslash, .inl htext⟩
  · -- What is left are control characters; they are among the first 128, so four digits hold them.
    refine .inr ⟨'u' :: hex4 c.toNat, rfl, fun rest => ⟨?_, rfl⟩⟩
    have hsmall := toNat_lt_of_not_isTextChar (by simpa using htext)
    have hcode : charOf? c.toNat = some c := by
      rw [charOf?, if_pos (by omega), Char.ofNat_toNat]
    rw [List.cons_append, escape?, hexDigits?_hex4 (by omega), Option.bind_some]
    dsimp only
    rw [hcode, Option.map_some]

theorem basicBody_escape (fuel : Nat) {c : Char} {code rest : List Char}
    (h : escape? code = some (c, rest)) :
    basicBody (fuel + 1) ('\\' :: code) = consRead c (basicBody fuel rest) := by
  rw [basicBody, h]

theorem basicBody_plain (fuel : Nat) {c : Char} (hquote : c ≠ '"') (hslash : c ≠ '\\')
    (htext : isTextChar c = true) (rest : List Char) :
    basicBody (fuel + 1) (c :: rest) = consRead c (basicBody fuel rest) := by
  rw [basicBody, if_pos htext]
  · exact hquote
  · exact hslash

theorem basicBody_escaped (fuel : Nat) {c : Char} (hquote : c ≠ '"') (rest : List Char) :
    basicBody (fuel + 1) (escaped false c ++ rest) = consRead c (basicBody fuel rest) := by
  rcases escaped_cases false c with ⟨hsame, hslash, htext | ⟨hlong, -⟩⟩ | ⟨code, hcode, hread⟩
  · rw [hsame]
    exact basicBody_plain fuel hquote hslash htext rest
  · cases hlong
  · rw [hcode]
    exact basicBody_escape fuel (hread rest).1

/-- A string on one line with escapes reads back. -/
theorem basicBody_escapedBody {s : List Char} {fuel : Nat} (h : s.length < fuel) (quotes : Nat)
    (rest : List Char) :
    basicBody fuel (escapedBody false quotes s ++ '"' :: rest) = some (s, rest) := by
  -- One step of the reader takes one character of the string, in whatever way it is written.
  induction s generalizing fuel quotes with
  | nil =>
      cases fuel with
      | zero => cases h
      | succ fuel => rfl
  | cons c s ih =>
      cases fuel with
      | zero => cases h
      | succ fuel =>
          have hrest := fun quotes => ih (Nat.lt_of_succ_lt_succ h) quotes
          rw [escapedBody]
          split
          next hc =>
            subst hc
            have hread : escape? ('"' :: escapedBody false 0 s ++ '"' :: rest) =
                some ('"', escapedBody false 0 s ++ '"' :: rest) := rfl
            rw [Bool.false_and, if_neg Bool.false_ne_true, List.cons_append,
              basicBody_escape fuel hread, hrest]
            rfl
          next hc =>
            rw [List.append_assoc, basicBody_escaped fuel hc, hrest]
            rfl

theorem length_le_escapedBody (long : Bool) (quotes : Nat) (s : List Char) :
    s.length ≤ (escapedBody long quotes s).length := by
  induction s generalizing quotes with
  | nil => simp
  | cons c s ih =>
      have hpos : 0 < (escaped long c).length := by
        rcases escaped_cases long c with ⟨hsame, -⟩ | ⟨code, hcode, -⟩
        · simp [hsame]
        · simp [hcode]
      have hzero := ih 0
      have hmore := ih (quotes + 1)
      rw [escapedBody]
      split_ifs <;> simp only [List.length_cons, List.length_append] <;> omega

theorem literalBody_append {s : List Char} (h : ∀ c ∈ s, c ≠ '\'' ∧ isTextChar c = true)
    (rest : List Char) : literalBody (s ++ '\'' :: rest) = some (s, rest) := by
  induction s with
  | nil => rfl
  | cons c s ih =>
      obtain ⟨hquote, htext⟩ := h c List.mem_cons_self
      rw [List.cons_append, literalBody, if_pos htext,
        ih fun d hd => h d (List.mem_cons_of_mem _ hd)]
      · rfl
      · exact hquote

theorem closing_of_ne {quote : Char} {rest : List Char} (h : rest.head? ≠ some quote) :
    closing quote rest = ([], rest) := by
  have hne : ∀ c more, rest = c :: more → c ≠ quote := by
    rintro c more rfl rfl
    exact h rfl
  unfold closing
  split
  next a b more => rw [if_neg fun hboth => hne a _ rfl hboth.1, if_neg (hne a _ rfl)]
  next a => rw [if_neg (hne a _ rfl)]
  · rfl

theorem closing_one {quote : Char} {rest : List Char} (h : rest.head? ≠ some quote) :
    closing quote (quote :: rest) = ([quote], rest) := by
  cases rest with
  | nil => simp [closing]
  | cons c rest =>
      have hne : c ≠ quote := by
        rintro rfl
        exact h rfl
      simp [closing, hne]

theorem closing_two (quote : Char) (rest : List Char) :
    closing quote (quote :: quote :: rest) = ([quote, quote], rest) := by
  simp [closing]

theorem longBasicBody_escape (fuel : Nat) {c : Char} {code rest : List Char}
    (hread : escape? code = some (c, rest)) (hjoin : joinedLine? code = none) :
    longBasicBody (fuel + 1) ('\\' :: code) = consRead c (longBasicBody fuel rest) := by
  rw [longBasicBody, hjoin]
  dsimp only
  rw [hread]

theorem ne_return {c : Char} (h : isTextChar c = true ∨ c = '\n') : c ≠ '\r' := by
  rintro rfl
  revert h
  decide

theorem longBasicBody_plain (fuel : Nat) {c : Char} {rest : List Char}
    (hquotes : ∀ more, c = '"' → rest ≠ '"' :: '"' :: more) (hslash : c ≠ '\\')
    (htext : isTextChar c = true ∨ c = '\n') :
    longBasicBody (fuel + 1) (c :: rest) = consRead c (longBasicBody fuel rest) := by
  have hallowed : (decide (c = '\n') || isTextChar c) = true := by
    simpa [or_comm] using htext
  rw [longBasicBody, if_pos hallowed]
  · exact hquotes
  · exact hslash
  · exact fun _ hreturn _ => ne_return htext hreturn

theorem longBasicBody_escaped (fuel : Nat) {c : Char} (hquote : c ≠ '"') (rest : List Char) :
    longBasicBody (fuel + 1) (escaped true c ++ rest) = consRead c (longBasicBody fuel rest) := by
  rcases escaped_cases true c with ⟨hsame, hslash, htext⟩ | ⟨code, hcode, hread⟩
  · rw [hsame]
    exact longBasicBody_plain fuel (fun _ h => absurd h hquote) hslash (htext.imp_right And.right)
  · rw [hcode]
    exact longBasicBody_escape fuel (hread rest).1 (hread rest).2

/-- A quote in front of what is written stands in a long string, and is not the third in a row. -/
theorem escapedBody_quote {long : Bool} {quotes : Nat} {s rest more : List Char} (hs : s ≠ [])
    (h : escapedBody long quotes s ++ rest = '"' :: more) :
    (long = true ∧ quotes < 2) ∧ ∃ s', s = '"' :: s' ∧
      more = escapedBody long (quotes + 1) s' ++ rest := by
  obtain ⟨c, s', rfl⟩ := List.exists_cons_of_ne_nil hs
  rw [escapedBody] at h
  split at h
  next hc =>
    split at h
    next hquotes =>
      rw [List.cons_append, List.cons.injEq] at h
      exact ⟨by simpa using hquotes, s', by rw [hc], h.2.symm⟩
    · cases h
  next hc =>
    rcases escaped_cases long c with ⟨hsame, -, -⟩ | ⟨code, hcode, -⟩
    · rw [hsame] at h
      exact absurd (List.cons.inj h).1 hc
    · rw [hcode] at h
      cases h

/-- A quote that is written as it is reads back, also where it comes right before those that end
the string. -/
theorem longBasicBody_quote {fuel quotes : Nat} {s rest : List Char}
    (hrest : rest.head? ≠ some '"')
    (h : longBasicBody fuel (escapedBody true (quotes + 1) s ++ '"' :: '"' :: '"' :: rest) =
      some (s, rest)) :
    longBasicBody (fuel + 1)
      ('"' :: (escapedBody true (quotes + 1) s ++ '"' :: '"' :: '"' :: rest)) =
        some ('"' :: s, rest) := by
  by_cases hthree : ∃ more, escapedBody true (quotes + 1) s ++ '"' :: '"' :: '"' :: rest =
      '"' :: '"' :: more
  · -- Three quotes end the string here, and what follows them belongs to its content.
    obtain ⟨more, hthree⟩ := hthree
    by_cases hs : s = []
    · subst hs
      rw [escapedBody, List.nil_append, longBasicBody, closing_one hrest]
    · obtain ⟨-, s', rfl, hmore⟩ := escapedBody_quote hs hthree
      by_cases hs' : s' = []
      · subst hs'
        rw [escapedBody, List.nil_append, List.cons.injEq] at hmore
        rw [hthree, longBasicBody, hmore.2, closing_two]
      · -- The writer would have escaped the third quote.
        obtain ⟨⟨-, hfew⟩, -⟩ := escapedBody_quote hs' hmore.symm
        omega
  · rw [longBasicBody_plain fuel (fun more _ heq => hthree ⟨more, heq⟩) (by decide) (.inl rfl), h]
    rfl

/-- A string over several lines with escapes reads back. -/
theorem longBasicBody_escapedBody {s : List Char} {fuel : Nat} (h : s.length < fuel) (quotes : Nat)
    {rest : List Char} (hrest : rest.head? ≠ some '"') :
    longBasicBody fuel (escapedBody true quotes s ++ '"' :: '"' :: '"' :: rest) =
      some (s, rest) := by
  induction s generalizing fuel quotes with
  | nil =>
      cases fuel with
      | zero => cases h
      | succ fuel => rw [escapedBody, List.nil_append, longBasicBody, closing_of_ne hrest]
  | cons c s ih =>
      cases fuel with
      | zero => cases h
      | succ fuel =>
          have hmore := fun quotes => ih (Nat.lt_of_succ_lt_succ h) quotes
          rw [escapedBody]
          split
          next hc =>
            subst hc
            split
            next => exact longBasicBody_quote hrest (hmore _)
            next =>
              have hread : escape? ('"' :: escapedBody true 0 s ++ '"' :: '"' :: '"' :: rest) =
                  some ('"', escapedBody true 0 s ++ '"' :: '"' :: '"' :: rest) := rfl
              rw [List.cons_append, longBasicBody_escape fuel hread rfl, hmore]
              rfl
          next hc =>
            rw [List.append_assoc, longBasicBody_escaped fuel hc, hmore]
            rfl

theorem le_longestRun (mark : Char) (current : Nat) (s : List Char) :
    current ≤ longestRun mark current s := by
  induction s generalizing current with
  | nil => exact Nat.le_refl _
  | cons c s ih =>
      rw [longestRun]
      split
      · exact Nat.le_of_succ_le (ih (current + 1))
      · exact Nat.le_max_left _ _

theorem longLiteralBody_plain {c : Char} {rest : List Char}
    (hquotes : ∀ more, c = '\'' → rest ≠ '\'' :: '\'' :: more)
    (htext : isTextChar c = true ∨ c = '\n') :
    longLiteralBody (c :: rest) = consRead c (longLiteralBody rest) := by
  have hallowed : (decide (c = '\n') || isTextChar c) = true := by
    simpa [or_comm] using htext
  rw [longLiteralBody, if_pos hallowed]
  · exact hquotes
  · exact fun _ hreturn _ => ne_return htext hreturn

theorem longLiteralBody_quote {current : Nat} {s rest : List Char}
    (hrun : longestRun '\'' (current + 1) s ≤ 2) (hrest : rest.head? ≠ some '\'')
    (h : longLiteralBody (s ++ '\'' :: '\'' :: '\'' :: rest) = some (s, rest)) :
    longLiteralBody ('\'' :: (s ++ '\'' :: '\'' :: '\'' :: rest)) = some ('\'' :: s, rest) := by
  by_cases hthree : ∃ more, s ++ '\'' :: '\'' :: '\'' :: rest = '\'' :: '\'' :: more
  · obtain ⟨more, hthree⟩ := hthree
    rcases s with _ | ⟨a, _ | ⟨b, s⟩⟩
    · rw [List.nil_append, longLiteralBody, closing_one hrest]
    · obtain rfl : a = '\'' := (List.cons.inj hthree).1
      rw [List.cons_append, List.nil_append, longLiteralBody, closing_two]
    · -- Of three quotes in the string the run would be too long.
      obtain ⟨rfl, htail⟩ := List.cons.inj hthree
      obtain ⟨rfl, -⟩ := List.cons.inj htail
      rw [longestRun, if_pos rfl, longestRun, if_pos rfl] at hrun
      have hlong := le_longestRun '\'' (current + 1 + 1 + 1) s
      omega
  · rw [longLiteralBody_plain (fun more _ heq => hthree ⟨more, heq⟩) (.inl rfl), h]
    rfl

/-- A string over several lines without escapes reads back, if there are no three quotes in it. -/
theorem longLiteralBody_append {s : List Char} {current : Nat}
    (hrun : longestRun '\'' current s ≤ 2) (htext : ∀ c ∈ s, isTextChar c = true ∨ c = '\n')
    {rest : List Char} (hrest : rest.head? ≠ some '\'') :
    longLiteralBody (s ++ '\'' :: '\'' :: '\'' :: rest) = some (s, rest) := by
  induction s generalizing current with
  | nil => rw [List.nil_append, longLiteralBody, closing_of_ne hrest]
  | cons c s ih =>
      have htext' := fun d hd => htext d (List.mem_cons_of_mem _ hd)
      rw [longestRun] at hrun
      rw [List.cons_append]
      split at hrun
      next hc =>
        subst hc
        exact longLiteralBody_quote hrun hrest (ih hrun htext')
      next hc =>
        rw [longLiteralBody_plain (fun _ h => absurd h hc) (htext c List.mem_cons_self),
          ih (Nat.le_trans (Nat.le_max_right _ _) hrun) htext']
        rfl

theorem withoutFirstNewline_of_ne {s : List Char} (h : ∀ c ∈ s.head?, c ≠ '\n' ∧ c ≠ '\r') :
    withoutFirstNewline s = s := by
  rw [withoutFirstNewline, newline?]
  · rfl
  · rintro rest rfl
    exact (h '\n' rfl).1 rfl
  · rintro rest rfl
    exact (h '\r' rfl).2 rfl

/-- Of a long string only the end of line is left out that was put in front of it. -/
theorem withoutFirstNewline_longStart {s body : List Char}
    (h : '\n' ∉ s → ∀ c ∈ body.head?, c ≠ '\n' ∧ c ≠ '\r') :
    withoutFirstNewline (longStart s ++ body) = body := by
  rw [longStart]
  split
  · rfl
  next hnewline => exact withoutFirstNewline_of_ne (h hnewline)

theorem head_escapedBody {s : List Char} (h : '\n' ∉ s) (rest : List Char) :
    ∀ c ∈ (escapedBody true 0 s ++ '"' :: rest).head?, c ≠ '\n' ∧ c ≠ '\r' := by
  cases s with
  | nil =>
      rintro c ⟨⟩
      decide
  | cons d s =>
      intro c hc
      rw [escapedBody] at hc
      split at hc
      · obtain rfl : '"' = c := Option.some.inj hc
        decide
      · rcases escaped_cases true d with ⟨hsame, -, htext⟩ | ⟨code, hcode, -⟩
        · rw [hsame] at hc
          obtain rfl : d = c := Option.some.inj hc
          exact ⟨fun heq => h (by simp [heq]), ne_return (htext.imp_right And.right)⟩
        · rw [hcode] at hc
          obtain rfl : '\\' = c := Option.some.inj hc
          decide

theorem text_of_needsEscape {c : Char} (h : needsEscape c = false) :
    isTextChar c = true ∨ c = '\n' := by
  by_cases hnewline : c = '\n'
  · exact .inr hnewline
  · exact .inl (by simpa [needsEscape, hnewline] using h)

theorem text_of_plain {s : List Char} (h : (!s.any needsEscape) = true) :
    ∀ c ∈ s, isTextChar c = true ∨ c = '\n' := by
  rw [Bool.not_eq_true', List.any_eq_false] at h
  exact fun c hc => text_of_needsEscape (by simpa using h c hc)

theorem formOf_literal {s : List Char} (h : formOf s = .literal) :
    s ≠ [] ∧ ∀ c ∈ s, c ≠ '\'' ∧ isTextChar c = true := by
  refine ⟨?_, ?_⟩
  · rintro rfl
    cases h
  · unfold formOf at h
    dsimp only at h
    split_ifs at h with hbasic hliteral
    simp only [Bool.and_eq_true, decide_eq_true_eq] at hliteral
    obtain ⟨⟨hplain, honeLine⟩, hquote⟩ := hliteral
    intro c hc
    refine ⟨fun heq => hquote (heq ▸ hc), (text_of_plain hplain c hc).resolve_right ?_⟩
    exact fun heq => honeLine (heq ▸ hc)

theorem formOf_longLiteral {s : List Char} (h : formOf s = .longLiteral) :
    longestRun '\'' 0 s ≤ 2 ∧ ∀ c ∈ s, isTextChar c = true ∨ c = '\n' := by
  unfold formOf at h
  dsimp only at h
  split_ifs at h with hbasic hliteral hlongBasic hlongLiteral
  simp only [Bool.and_eq_true, decide_eq_true_eq] at hlongLiteral
  exact ⟨hlongLiteral.2, text_of_plain hlongLiteral.1⟩

/-- What stands behind a string so that it ends where it should. -/
def EndsString (rest : List Char) : Prop :=
  rest.head? ≠ some '"' ∧ rest.head? ≠ some '\''

theorem string?_basic (s : List Char) {rest : List Char} (hrest : EndsString rest) :
    string? ('"' :: (escapedBody false 0 s ++ '"' :: rest)) = some (String.ofList s, rest) := by
  have hlength : s.length < (escapedBody false 0 s ++ '"' :: rest).length + 1 := by
    have hle := length_le_escapedBody false 0 s
    rw [List.length_append]
    omega
  -- It must not look like the start of a long string, which the empty one would if a quote came
  -- next.
  have hshort : ∀ more, escapedBody false 0 s ++ '"' :: rest ≠ '"' :: '"' :: more := by
    intro more heq
    by_cases hs : s = []
    · subst hs
      rw [escapedBody, List.nil_append, List.cons.injEq] at heq
      exact hrest.1 (by rw [heq.2]; rfl)
    · exact absurd (escapedBody_quote hs heq).1.1 Bool.false_ne_true
  rw [string?, shortString?, basicBody_escapedBody hlength]
  · rfl
  · exact fun more heq => hshort more (List.cons.inj heq).2
  · exact fun more heq => absurd (List.cons.inj heq).1 (by decide)

theorem string?_literal {s : List Char} (hs : s ≠ [])
    (htext : ∀ c ∈ s, c ≠ '\'' ∧ isTextChar c = true) (rest : List Char) :
    string? ('\'' :: (s ++ '\'' :: rest)) = some (String.ofList s, rest) := by
  obtain ⟨c, s', rfl⟩ := List.exists_cons_of_ne_nil hs
  rw [string?, shortString?, literalBody_append htext]
  · rfl
  · exact fun more heq => absurd (List.cons.inj heq).1 (by decide)
  · intro more heq
    exact (htext c List.mem_cons_self).1 (List.cons.inj (List.cons.inj heq).2).1

theorem string?_longBasic (s : List Char) {rest : List Char} (hrest : EndsString rest) :
    string? ('"' :: '"' :: '"' ::
      (longStart s ++ (escapedBody true 0 s ++ '"' :: '"' :: '"' :: rest))) =
        some (String.ofList s, rest) := by
  have hlength : s.length <
      (longStart s ++ (escapedBody true 0 s ++ '"' :: '"' :: '"' :: rest)).length + 1 := by
    have hle := length_le_escapedBody true 0 s
    rw [List.length_append, List.length_append]
    omega
  have hstart : withoutFirstNewline
      (longStart s ++ (escapedBody true 0 s ++ '"' :: '"' :: '"' :: rest)) =
        escapedBody true 0 s ++ '"' :: '"' :: '"' :: rest :=
    withoutFirstNewline_longStart fun hnewline => head_escapedBody hnewline _
  rw [string?, hstart, longBasicBody_escapedBody hlength 0 hrest.1]
  rfl

theorem string?_longLiteral {s : List Char} (hrun : longestRun '\'' 0 s ≤ 2)
    (htext : ∀ c ∈ s, isTextChar c = true ∨ c = '\n') {rest : List Char}
    (hrest : EndsString rest) :
    string? ('\'' :: '\'' :: '\'' :: (longStart s ++ (s ++ '\'' :: '\'' :: '\'' :: rest))) =
      some (String.ofList s, rest) := by
  have hstart : withoutFirstNewline (longStart s ++ (s ++ '\'' :: '\'' :: '\'' :: rest)) =
      s ++ '\'' :: '\'' :: '\'' :: rest := by
    refine withoutFirstNewline_longStart fun hnewline => ?_
    cases s with
    | nil =>
        rintro c ⟨⟩
        decide
    | cons d s =>
        rintro c ⟨⟩
        exact ⟨fun heq => hnewline (by simp [heq]), ne_return (htext d List.mem_cons_self)⟩
  rw [string?, hstart, longLiteralBody_append hrun htext hrest.2]
  rfl

/-- Every string reads back as it was before it was written. -/
theorem string?_writeString (s : List Char) {rest : List Char} (hrest : EndsString rest) :
    string? (writeString s ++ rest) = some (String.ofList s, rest) := by
  rw [writeString]
  split
  next => simpa using string?_basic s hrest
  next hform =>
    obtain ⟨hs, htext⟩ := formOf_literal hform
    simpa using string?_literal hs htext rest
  next => simpa using string?_longBasic s hrest
  next hform =>
    obtain ⟨hrun, htext⟩ := formOf_longLiteral hform
    simpa using string?_longLiteral hrun htext hrest

end ArchiveOverlay.Toml
