import Workbench.Json.Basic

/-!
The numbers of JSON. An integer that fits into 64 bits is exact. Every other number is a
floating-point number: as many of its digits as fit into 64 bits make a whole number, which is then
scaled by a power of ten.
-/

namespace Workbench.Json

/-- Whole numbers below this fit into 64 bits. -/
def wordLimit : Nat := 0x10000000000000000

/-- The magnitude of the least integer. -/
def leastMagnitude : Nat := 0x8000000000000000

def digitValue (d : Char) : Nat := d.toNat - '0'.toNat

def digitsValue (ds : List Char) : Nat := ds.foldl (fun n d => n * 10 + digitValue d) 0

/-- Appends digits to a number as long as it fits into 64 bits; the digits left over come second. -/
def appendDigits (n : Nat) : List Char → Nat × List Char
  | [] => (n, [])
  | d :: ds =>
    let longer := n * 10 + digitValue d
    if longer < wordLimit then appendDigits longer ds else (n, d :: ds)

/-- A number times a power of ten, if it is not too large. Powers below the least one are reached in
steps, and three steps bring every number of 64 bits down to zero. -/
def scaleFrom? : (steps : Nat) → Binary64 → Int → Option Binary64
  | 0, x, _ => some x
  | steps + 1, x, exponent =>
    if exponent.natAbs ≤ Binary64.greatestPower then
      if 0 ≤ exponent then
        match x.timesPow10 exponent.natAbs with
        | .finite negative m q => some (.finite negative m q)
        | _ => none
      else some (x.overPow10 exponent.natAbs)
    else if x.isZero then some x
    else if 0 ≤ exponent then none
    else scaleFrom? steps (x.overPow10 Binary64.greatestPower) (exponent + Binary64.greatestPower)

/-- The floating-point number with a sign, a magnitude and a power of ten. -/
def float? (negative : Bool) (magnitude : Nat) (exponent : Int) : Option Json := do
  let x ← scaleFrom? 4 (.ofNat magnitude) exponent
  return .float (if negative then x.negate else x)

/-- The number written by a sign, digits, digits behind a point and an exponent. -/
def number? (negative : Bool) (whole : List Char) (places : Option (List Char))
    (exponent : Option Int) : Option Json :=
  let (n, left) := appendDigits 0 whole
  match places, exponent with
  | none, none =>
    if !left.isEmpty then float? negative n left.length
    else if !negative then some (.int n)
    else if n = 0 ∨ leastMagnitude < n then float? true n 0
    else some (.int (-(n : Int)))
  | _, _ =>
    let (n, unused) := appendDigits n (places.getD [])
    let used : Int := (places.getD []).length - unused.length
    float? negative n ((left.length : Int) - used + exponent.getD 0)

end Workbench.Json
