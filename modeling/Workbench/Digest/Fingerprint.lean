import Workbench.Digest.Sha256
import Workbench.Json.Basic
import Workbench.Sorting
import Workbench.Text.Bytes

/-!
Fingerprints: SHA-256 in hexadecimal. The fingerprint of a set of texts does not see their order
and repetition, and each text is preceded by its length, so that no two sets run together.
-/

namespace Workbench

/-- A hash, written with 64 hexadecimal digits. -/
structure Fingerprint where
  text : String
  deriving DecidableEq, Repr, Inhabited

namespace Fingerprint

instance : Ord Fingerprint where
  compare a b := compare a.text b.text

def hex (bytes : List UInt8) : String :=
  String.ofList (bytes.flatMap fun byte =>
    [Json.hexDigit (byte.toNat / 16), Json.hexDigit (byte.toNat % 16)])

def ofBytes (bytes : List UInt8) : Fingerprint := ⟨hex (Sha256.hash bytes)⟩

def ofText (text : String) : Fingerprint := ofBytes (Text.encode text)

/-- Eight bytes of a number, least significant first. -/
def littleEndian (n : Nat) : List UInt8 := (Sha256.bigEndian 8 n).reverse

/-- What is hashed for a set of texts: each once, in order, behind its length in bytes. -/
def encodeSet (parts : List String) : List UInt8 :=
  (sortUnique compare parts).flatMap fun part =>
    littleEndian part.utf8ByteSize ++ Text.encode part

def ofSet (parts : List String) : Fingerprint := ofBytes (encodeSet parts)

/-- The leading digits, for file names and logs. -/
def take (f : Fingerprint) (count : Nat) : String := String.ofList (f.text.toList.take count)

end Fingerprint

end Workbench
