/-!
Floating-point numbers with 53 bits. A finite number is m · 2^q; a decimal, a product or a quotient
is the nearest number, and of two equally near ones the one with even m.
-/

namespace Workbench

/-- A number of the format with 64 bits. -/
inductive Binary64 where
  /-- m · 2^q, with a sign of its own so that there are two zeros. -/
  | finite (negative : Bool) (m : Nat) (q : Int)
  | infinite (negative : Bool)
  | notANumber
  deriving DecidableEq, Repr

namespace Binary64

def pow2 (k : Nat) : Nat := Nat.pow 2 k

def pow10 (k : Nat) : Nat := Nat.pow 10 k

/-- The bits of m. -/
def precision : Nat := 53

/-- The least exponent. -/
def minExponent : Int := -1074

/-- The greatest exponent. -/
def maxExponent : Int := 971

/-- A quotient rounded to the nearest number, a half to the even one. -/
def roundDiv (num den : Nat) : Nat :=
  let whole := num / den
  let rest := 2 * (num % den)
  if rest < den then whole
  else if rest = den then whole + whole % 2
  else whole + 1

/-- `num / (den · 2^q)`, rounded. -/
def scaled (num den : Nat) (q : Int) : Nat :=
  if 0 ≤ q then roundDiv num (den * pow2 q.toNat) else roundDiv (num * pow2 (-q).toNat) den

/-- The number nearest to a positive quotient. -/
def ofQuotient (negative : Bool) (num den : Nat) : Binary64 :=
  let estimate : Int := (Nat.log2 num : Int) - (Nat.log2 den : Int) - 53
  -- The estimate is at most two too small.
  let fits (q : Int) : Bool := scaled num den q ≤ pow2 precision
  let q := if fits estimate then estimate else if fits (estimate + 1) then estimate + 1
    else estimate + 2
  let q := max q minExponent
  let m := scaled num den q
  let (m, q) := if m = pow2 precision then (pow2 (precision - 1), q + 1) else (m, q)
  if maxExponent < q then .infinite negative else .finite negative m q

/-- The number nearest to a natural number. -/
def ofNat (n : Nat) : Binary64 :=
  if n = 0 then .finite false 0 minExponent else ofQuotient false n 1

def isZero : Binary64 → Bool
  | .finite _ m _ => m == 0
  | _ => false

def negate : Binary64 → Binary64
  | .finite negative m q => .finite (!negative) m q
  | .infinite negative => .infinite (!negative)
  | .notANumber => .notANumber

/-- The finite number nearest to m · 2^q · num / den, or an infinite one. -/
def ofScaled (m : Nat) (q : Int) (num den : Nat) : Binary64 :=
  if m * num = 0 then .finite false 0 minExponent
  else ofQuotient false (m * num * pow2 q.toNat) (den * pow2 (-q).toNat)

/-- The greatest power of ten that is a number. -/
def greatestPower : Nat := 308

/-- A finite number without its sign times a power of ten, both rounded. -/
def timesPow10 (x : Binary64) (k : Nat) : Binary64 :=
  match x, ofNat (pow10 k) with
  | .finite _ m q, .finite _ n r => ofScaled m (q + r) n 1
  | _, y => y

/-- A finite number without its sign divided by a power of ten, both rounded. -/
def overPow10 (x : Binary64) (k : Nat) : Binary64 :=
  match x, ofNat (pow10 k) with
  | .finite _ m q, .finite _ n r => ofScaled m (q - r) 1 n
  | x, _ => x

/-- The number nearest to `digits · 10^exponent`. Far outside the range it is not computed. -/
def ofDecimal (negative : Bool) (digits : Nat) (exponent : Int) : Binary64 :=
  let size : Int := exponent + (toString digits).length
  if digits = 0 then .finite negative 0 minExponent
  else if 400 < size then .infinite negative
  else if size < -400 then .finite negative 0 minExponent
  else if 0 ≤ exponent then ofQuotient negative (digits * pow10 exponent.toNat) 1
  else ofQuotient negative digits (pow10 (-exponent).toNat)

end Binary64

end Workbench
