/-!
Texts as bytes: the UTF-8 form, and the code page of early archives. What is not well formed in
UTF-8 can be replaced piece by piece: each piece is the longest beginning of a character that the
bytes allow, at least one byte.
-/

namespace Workbench.Text

def encode (text : String) : List UInt8 := text.toUTF8.data.toList

/-- The text with the given bytes, if they are those of one. -/
def decode? (bytes : List UInt8) : Option String := String.fromUTF8? ⟨bytes.toArray⟩

/-! ### Replacing what is not well formed -/

/-- The character in the place of bytes that are none. -/
def replacement : Char := '\ufffd'

/-- The bytes that may follow the first byte of a character: the bounds of the second byte, and how
many more there are behind it. -/
def expected? (first : UInt8) : Option (UInt8 × UInt8 × Nat) :=
  if 0xC2 ≤ first ∧ first ≤ 0xDF then some (0x80, 0xBF, 0)
  else if first = 0xE0 then some (0xA0, 0xBF, 1)
  else if first = 0xED then some (0x80, 0x9F, 1)
  else if 0xE1 ≤ first ∧ first ≤ 0xEF then some (0x80, 0xBF, 1)
  else if first = 0xF0 then some (0x90, 0xBF, 2)
  else if 0xF1 ≤ first ∧ first ≤ 0xF3 then some (0x80, 0xBF, 2)
  else if first = 0xF4 then some (0x80, 0x8F, 2)
  else none

/-- How many bytes continue a character, at most so many. -/
def continued (most : Nat) (bytes : List UInt8) : Nat :=
  ((bytes.take most).takeWhile fun byte => 0x80 ≤ byte && byte ≤ 0xBF).length

/-- How many bytes the piece at the front has behind its first byte, and whether it is a
character. -/
def pieceRest (first : UInt8) (bytes : List UInt8) : Nat × Bool :=
  if first < 0x80 then (0, true)
  else match expected? first, bytes with
    | some (low, high, more), second :: rest =>
      if low ≤ second ∧ second ≤ high then
        (1 + continued more rest, continued more rest == more)
      else (0, false)
    | _, _ => (0, false)

/-- The characters of some bytes, after the bytes of a piece that was read already. -/
def lossyFrom : (skip : Nat) → List UInt8 → List Char
  | _, [] => []
  | skip + 1, _ :: bytes => lossyFrom skip bytes
  | 0, first :: bytes =>
    let (rest, good) := pieceRest first bytes
    let chars := if good then ((decode? (first :: bytes.take rest)).getD "").toList
      else [replacement]
    chars ++ lossyFrom rest bytes

/-- The text of some bytes, with a mark for each piece that is no character. -/
def decodeLossy (bytes : List UInt8) : String := String.ofList (lossyFrom 0 bytes)

/-! ### A code page -/

/-- The characters of the code page from 128 on. -/
def codePage : Array Char :=
  ("ÇüéâäàåçêëèïîìÄÅÉæÆôöòûùÿÖÜ¢£¥₧ƒáíóúñÑªº¿⌐¬½¼¡«»" ++
   "░▒▓│┤╡╢╖╕╣║╗╝╜╛┐└┴┬├─┼╞╟╚╔╩╦╠═╬╧╨╤╥╙╘╒╓╫╪┘┌█▄▌▐▀" ++
   "αßΓπΣσµτΦΘΩδ∞φε∩≡±≥≤⌠⌡÷≈°∙·√ⁿ²■\xa0").toList.toArray

def codePageChar (byte : UInt8) : Char :=
  if byte < 0x80 then Char.ofNat byte.toNat
  else codePage.getD (byte.toNat - 0x80) replacement

def decodeCodePage (bytes : List UInt8) : String := String.ofList (bytes.map codePageChar)

end Workbench.Text
