import UberJar.Bytes

namespace UberJar.Zip

/-- The characters of the bytes from 128 on. -/
def upperHalf : Array Char :=
  ("ÇüéâäàåçêëèïîìÄÅÉæÆôöòûùÿÖÜ¢£¥₧ƒáíóúñÑªº¿⌐¬½¼¡«»░▒▓│┤╡╢╖╕╣║╗╝╜╛┐└┴┬├─┼╞╟╚╔╩╦╠═╬╧╨╤╥╙╘╒╓╫╪┘┌█▄▌▐▀" ++
    "αßΓπΣσµτΦΘΩδ∞φε∩≡±≥≤⌠⌡÷≈°∙·√ⁿ²■\xa0").toList.toArray

/-- The character of a byte. -/
def charOf (b : UInt8) : Char := if b < 128 then Char.ofNat b.toNat else upperHalf.getD (b.toNat - 128) ' '

/-- A name that is not marked as UTF-8. -/
def decodeCodePage (bytes : Bytes) : String := String.ofList (bytes.map charOf)

end UberJar.Zip
