namespace ArchiveOverlay.Text

/-- The characters of the bytes from 128 on, in order. -/
def codePage437 : Array Char :=
  ("ÇüéâäàåçêëèïîìÄÅÉæÆôöòûùÿÖÜ¢£¥₧ƒáíóúñÑªº¿⌐¬½¼¡«»░▒▓│┤╡╢╖╕╣║╗╝╜╛┐" ++
    "└┴┬├─┼╞╟╚╔╩╦╠═╬╧╨╤╥╙╘╒╓╫╪┘┌█▄▌▐▀αßΓπΣσµτΦΘΩδ∞φε∩≡±≥≤⌠⌡÷≈°∙·√ⁿ²■\u00a0").toList.toArray

/-- The text of bytes in which each stands for one character. -/
def ofCodePage437 (bytes : List UInt8) : List Char :=
  bytes.map fun byte =>
    if byte < 0x80 then Char.ofNat byte.toNat else codePage437.getD (byte.toNat - 128) '�'

end ArchiveOverlay.Text
