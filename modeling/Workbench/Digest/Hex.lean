import Workbench.Json.Reader

/-!
Bytes written with two hexadecimal digits each.
-/

namespace Workbench.Hex

/-- The bytes that a text of hexadecimal digits writes. -/
def decode? : List Char → Option (List UInt8)
  | [] => some []
  | high :: low :: rest => do
    let high ← Json.hexValue? high
    let low ← Json.hexValue? low
    let bytes ← decode? rest
    return UInt8.ofNat (16 * high + low) :: bytes
  | [_] => none

end Workbench.Hex
