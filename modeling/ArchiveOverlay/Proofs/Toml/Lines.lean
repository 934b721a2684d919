import ArchiveOverlay.Proofs.Toml.Strings

namespace ArchiveOverlay.Toml

theorem isSpace_of_isBareKeyChar {c : Char} (h : isBareKeyChar c = true) : isSpace c = false := by
  rw [← Bool.not_eq_true]
  intro hspace
  simp only [isSpace, Bool.or_eq_true, decide_eq_true_eq] at hspace
  rcases hspace with rfl | rfl <;> revert h <;> decide

section

variable {key tail : List Char}

theorem head_ne_of_bare (hne : key ≠ []) (hbare : ∀ c ∈ key, isBareKeyChar c = true) {c : Char}
    (hc : isBareKeyChar c = false) (rest : List Char) : key ++ tail ≠ c :: rest := by
  obtain ⟨first, more, rfl⟩ := List.exists_cons_of_ne_nil hne
  intro heq
  have hfirst := hbare first List.mem_cons_self
  rw [(List.cons.inj heq).1, hc] at hfirst
  cases hfirst

theorem keyPart?_bare (hne : key ≠ []) (hbare : ∀ c ∈ key, isBareKeyChar c = true)
    (htail : ∀ c ∈ tail.head?, isBareKeyChar c = false) :
    keyPart? (key ++ tail) = some (String.ofList key, tail) := by
  have htake : (key ++ tail).takeWhile isBareKeyChar = key := by
    rw [List.takeWhile_append_of_pos hbare]
    cases tail with
    | nil => simp
    | cons c tail => rw [List.takeWhile_cons_of_neg (by simp [htail c rfl]), List.append_nil]
  have hdrop : (key ++ tail).dropWhile isBareKeyChar = tail := by
    rw [List.dropWhile_append_of_pos hbare]
    cases tail with
    | nil => rfl
    | cons c tail => rw [List.dropWhile_cons_of_neg (by simp [htail c rfl])]
  have hname : key.isEmpty = false := by simpa using hne
  rw [keyPart?, htake, hdrop, hname]
  · rfl
  · exact head_ne_of_bare hne hbare (by decide)
  · exact head_ne_of_bare hne hbare (by decide)

theorem skipSpaces_bare (hne : key ≠ []) (hbare : ∀ c ∈ key, isBareKeyChar c = true) :
    skipSpaces (key ++ tail) = key ++ tail := by
  obtain ⟨first, more, rfl⟩ := List.exists_cons_of_ne_nil hne
  have hfirst := isSpace_of_isBareKeyChar (hbare first List.mem_cons_self)
  exact List.dropWhile_cons_of_neg (by simp [hfirst])

/-- A bare key, with blanks around the sign of equality behind it. -/
theorem key?_bare (hne : key ≠ []) (hbare : ∀ c ∈ key, isBareKeyChar c = true) :
    key? (key ++ ' ' :: '=' :: tail) = some ([String.ofList key], '=' :: tail) := by
  have hpart : keyPart? (key ++ ' ' :: '=' :: tail) =
      some (String.ofList key, ' ' :: '=' :: tail) := by
    apply keyPart?_bare hne hbare
    rintro c ⟨⟩
    decide
  change keyParts? (78 + 1) _ = _
  rw [keyParts?, skipSpaces_bare hne hbare, hpart]
  rfl

/-- A line with a bare key, a value of any kind and nothing else. -/
theorem line?_assignment {v : Value} {rest : List Char} (hne : key ≠ [])
    (hbare : ∀ c ∈ key, isBareKeyChar c = true) (hstart : skipSpaces tail = tail)
    (hvalue : value? (depthLimit - 1) tail = some (v, '\n' :: rest)) :
    line? (key ++ ' ' :: '=' :: ' ' :: tail) = some (.assignment [String.ofList key] v, rest) := by
  have hassignment : assignment? (value? (depthLimit - 1)) (key ++ ' ' :: '=' :: ' ' :: tail) =
      some (([String.ofList key], v), '\n' :: rest) := by
    have hskip : skipSpaces (' ' :: tail) = tail := hstart
    rw [assignment?, key?_bare hne hbare]
    change Option.map _ (value? (depthLimit - 1) (skipSpaces (' ' :: tail))) = _
    rw [hskip, hvalue]
    rfl
  rw [line?, skipSpaces_bare hne hbare]
  split
  next hnil => exact absurd (List.append_eq_nil_iff.mp hnil).1 hne
  next heq => exact absurd heq (head_ne_of_bare hne hbare (by decide) _)
  next heq => exact absurd heq (head_ne_of_bare hne hbare (by decide) _)
  next heq => exact absurd heq (head_ne_of_bare hne hbare (by decide) _)
  next heq => exact absurd heq (head_ne_of_bare hne hbare (by decide) _)
  next heq => exact absurd heq (head_ne_of_bare hne hbare (by decide) _)
  next =>
    rw [hassignment]
    rfl

theorem exists_writeString (s : List Char) :
    ∃ tail, writeString s = '"' :: tail ∨ writeString s = '\'' :: tail := by
  rw [writeString]
  split
  · exact ⟨_, .inl rfl⟩
  · exact ⟨_, .inr rfl⟩
  · exact ⟨_, .inl rfl⟩
  · exact ⟨_, .inr rfl⟩

theorem value?_writeString (s : List Char) {rest : List Char} (hrest : EndsString rest) :
    value? (depthLimit - 1) (writeString s ++ rest) = some (.string (String.ofList s), rest) := by
  have hstring := string?_writeString s hrest
  obtain ⟨tail, hquote | hquote⟩ := exists_writeString s
  all_goals
    rw [hquote, List.cons_append] at hstring ⊢
    change (string? _).map (fun x => (Value.string x.1, x.2)) = _
    rw [hstring]
    rfl

/-- One more line that adds to what has been read. -/
theorem lines?_line {fuel : Nat} {d d' : Draft} {s rest : List Char} {line : Line}
    (hread : line? s = some (line, rest)) (hne : s ≠ []) (hadd : d.add line = some d') :
    lines? (fuel + 1) d s = lines? fuel d' rest := by
  rw [lines?, hread]
  · dsimp only
    rw [hadd]
  · exact hne

/-- A key at the top of a document that is not there yet. -/
theorem add_assignment {root : Fields} {key : String} (v : Value) (hkey : root.lookup key = none) :
    Draft.add ⟨root, []⟩ (.assignment [key] v) = some ⟨root ++ [(key, v)], []⟩ := by
  change (putDotted key v [] root).map _ = _
  rw [putDotted, hkey]
  rfl

/-- A document that starts with a bare key has no mark in front. -/
theorem parse?_of_bare {text : String} {d : Draft} (hne : key ≠ [])
    (hbare : ∀ c ∈ key, isBareKeyChar c = true) (htext : text.toList = key ++ tail)
    (hlines : lines? (key ++ tail).length ⟨[], []⟩ (key ++ tail) = some d) :
    parse? text = some d.root := by
  rw [parse?, htext]
  split
  next heq => exact absurd heq (head_ne_of_bare hne hbare (by decide) _)
  next => rw [hlines, Option.map_some]

end

end ArchiveOverlay.Toml
