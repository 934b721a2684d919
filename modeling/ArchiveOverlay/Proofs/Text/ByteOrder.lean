import Mathlib.Data.String.Basic

namespace ArchiveOverlay.Text

/-- The UTF-8 bytes of a text. -/
def bytes (s : String) : List UInt8 :=
  s.toUTF8.data.toList

theorem bytes_eq_flatMap (s : String) : bytes s = s.toList.flatMap String.utf8EncodeChar := by
  rw [bytes, String.toUTF8_eq_toByteArray, ← String.utf8Encode_toList, List.utf8Encode,
    List.toList_data_toByteArray]

theorem ofNat_lt_ofNat {a b : Nat} (ha : a < 256) (hb : b < 256) :
    UInt8.ofNat a < UInt8.ofNat b ↔ a < b := by
  rw [UInt8.lt_iff_toNat_lt, UInt8.toNat_ofNat', UInt8.toNat_ofNat', Nat.mod_eq_of_lt ha,
    Nat.mod_eq_of_lt hb]

theorem ofNat_eq_ofNat {a b : Nat} (ha : a < 256) (hb : b < 256) :
    UInt8.ofNat a = UInt8.ofNat b ↔ a = b := by
  rw [← UInt8.toNat_inj, UInt8.toNat_ofNat', UInt8.toNat_ofNat', Nat.mod_eq_of_lt ha,
    Nat.mod_eq_of_lt hb]

/-- The bytes of the smaller of two characters come first, whatever follows them. -/
theorem utf8EncodeChar_append_lt {c d : Char} (h : c < d) (s t : List UInt8) :
    String.utf8EncodeChar c ++ s < String.utf8EncodeChar d ++ t := by
  have hlt : c.val.toNat < d.val.toNat := h
  have hmax : d.val.toNat ≤ 0x10ffff := by
    have hvalid := d.valid
    simp only [UInt32.isValidChar, Nat.isValidChar] at hvalid
    omega
  unfold String.utf8EncodeChar
  generalize c.val.toNat = m at hlt
  generalize d.val.toNat = n at hlt hmax
  -- The first byte tells the length, and among equal lengths the bytes are digits in base 64.
  have hdigit₂ : ∀ v, v / 4096 = v / 64 / 64 := fun v => (Nat.div_div_eq_div_mul v 64 64).symm
  have hdigit₃ : ∀ v, v / 262144 = v / 64 / 64 / 64 := fun v => by
    rw [Nat.div_div_eq_div_mul, Nat.div_div_eq_div_mul]
  dsimp only
  split_ifs
  all_goals
    simp (disch := omega) only [List.cons_append, List.nil_append, List.cons_lt_cons_iff,
      ofNat_lt_ofNat, ofNat_eq_ofNat, hdigit₂, hdigit₃]
    omega

theorem bytes_lt_of_lt {s t : List Char} (h : s < t) :
    s.flatMap String.utf8EncodeChar < t.flatMap String.utf8EncodeChar := by
  induction s generalizing t with
  | nil =>
      cases t with
      | nil => cases h
      | cons d t =>
          rw [List.flatMap_nil, List.flatMap_cons]
          obtain ⟨byte, rest, heq⟩ := List.exists_cons_of_ne_nil (@String.utf8EncodeChar_ne_nil d)
          rw [heq]
          exact List.nil_lt_cons _ _
  | cons c s ih =>
      cases t with
      | nil => cases h
      | cons d t =>
          rw [List.flatMap_cons, List.flatMap_cons]
          rcases List.cons_lt_cons_iff.mp h with hcd | ⟨rfl, hst⟩
          · exact utf8EncodeChar_append_lt hcd _ _
          · exact List.append_left_lt (ih hst)

theorem bytes_lt_iff {s t : String} : bytes s < bytes t ↔ s < t := by
  rw [bytes_eq_flatMap, bytes_eq_flatMap, String.lt_iff_toList_lt]
  refine ⟨fun h => ?_, bytes_lt_of_lt⟩
  rcases lt_trichotomy s.toList t.toList with hlt | heq | hgt
  · exact hlt
  · rw [heq] at h
    exact absurd h (List.lt_irrefl _)
  · exact absurd h (List.lt_asymm (bytes_lt_of_lt hgt))

theorem utf8EncodeChar_append_inj {c d : Char} {s t : List UInt8}
    (h : String.utf8EncodeChar c ++ s = String.utf8EncodeChar d ++ t) : c = d ∧ s = t := by
  obtain rfl : c = d := by
    rcases lt_trichotomy c d with hlt | heq | hgt
    · exact absurd (h ▸ utf8EncodeChar_append_lt hlt s t) (List.lt_irrefl _)
    · exact heq
    · exact absurd (h ▸ utf8EncodeChar_append_lt hgt t s) (List.lt_irrefl _)
  exact ⟨rfl, List.append_cancel_left h⟩

theorem prefix_of_bytes {s t : List Char}
    (h : s.flatMap String.utf8EncodeChar <+: t.flatMap String.utf8EncodeChar) : s <+: t := by
  induction s generalizing t with
  | nil => exact List.nil_prefix
  | cons c s ih =>
      obtain ⟨rest, hbytes⟩ := h
      rw [List.flatMap_cons, List.append_assoc] at hbytes
      cases t with
      | nil =>
          rw [List.flatMap_nil, List.append_eq_nil_iff] at hbytes
          exact absurd hbytes.1 String.utf8EncodeChar_ne_nil
      | cons d t =>
          rw [List.flatMap_cons] at hbytes
          obtain ⟨rfl, hrest⟩ := utf8EncodeChar_append_inj hbytes
          exact List.cons_prefix_cons.mpr ⟨rfl, ih ⟨rest, hrest⟩⟩

/-- The bytes of a text begin with those of another just if the text itself begins so. -/
theorem bytes_prefix_iff {s t : String} : bytes s <+: bytes t ↔ s.toList <+: t.toList := by
  rw [bytes_eq_flatMap, bytes_eq_flatMap]
  refine ⟨prefix_of_bytes, ?_⟩
  rintro ⟨rest, hrest⟩
  rw [← hrest, List.flatMap_append]
  exact List.prefix_append _ _

end ArchiveOverlay.Text
