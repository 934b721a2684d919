namespace ArchiveOverlay.Text

/-- What a first byte promises: how many bytes follow, and the range of the next one. -/
structure Utf8Lead where
  following : Nat
  low : UInt8
  high : UInt8

def utf8Lead? (byte : UInt8) : Option Utf8Lead :=
  if byte < 0xc2 then none
  else if byte < 0xe0 then some ⟨1, 0x80, 0xbf⟩
  else if byte = 0xe0 then some ⟨2, 0xa0, 0xbf⟩
  else if byte = 0xed then some ⟨2, 0x80, 0x9f⟩
  else if byte < 0xf0 then some ⟨2, 0x80, 0xbf⟩
  else if byte = 0xf0 then some ⟨3, 0x90, 0xbf⟩
  else if byte < 0xf4 then some ⟨3, 0x80, 0xbf⟩
  else if byte = 0xf4 then some ⟨3, 0x80, 0x8f⟩
  else none

/-- The bytes at the front that continue a character, at most `count`; the first lies in a range of
its own. -/
def continuation (low high : UInt8) : (count : Nat) → List UInt8 → List UInt8
  | count + 1, byte :: rest =>
    if low ≤ byte && byte ≤ high then byte :: continuation 0x80 0xbf count rest else []
  | _, _ => []

/-- The code point in a first byte and those that follow it. -/
def codePoint (lead : UInt8) (following : List UInt8) : Nat :=
  let bits := lead.toNat % Nat.pow 2 (6 - following.length)
  following.foldl (fun n byte => 64 * n + byte.toNat % 64) bits

/-- The characters in UTF-8 bytes. Every longest beginning of a character that breaks off, and
every byte that begins none, becomes a replacement character. -/
def ofUtf8Lossy : List UInt8 → List Char
  | [] => []
  | byte :: rest =>
    if byte < 0x80 then Char.ofNat byte.toNat :: ofUtf8Lossy rest
    else
      match utf8Lead? byte with
      | none => '�' :: ofUtf8Lossy rest
      | some lead =>
        let tail := continuation lead.low lead.high lead.following rest
        let c := if tail.length = lead.following then Char.ofNat (codePoint byte tail) else '�'
        c :: ofUtf8Lossy (rest.drop tail.length)
termination_by bytes => bytes.length
decreasing_by all_goals simp only [List.length_cons, List.length_drop]; omega

end ArchiveOverlay.Text
