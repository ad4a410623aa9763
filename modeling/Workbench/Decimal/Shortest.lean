import Workbench.Decimal.Binary64

/-!
The shortest decimal that reads back as a given number: of all decimals with the fewest digits that
are nearest to no other number, the one nearest to it; of two equally near ones a format chooses
one. It is written in positional notation with at least one place behind the point.
-/

namespace Workbench.Binary64

/-- Whether `digits · 10^p` reads back as m · 2^q: it lies between the middles to the neighbours,
which belong to the numbers with even m. All is compared in quarters of 2^q. -/
def readsBack (m : Nat) (q : Int) (digits : Nat) (p : Int) : Bool :=
  let below := if m = pow2 (precision - 1) ∧ minExponent < q then 4 * m - 1 else 4 * m - 2
  let above := 4 * m + 2
  -- Both sides times 2^-min(q-2, 0) and 10^-min(p, 0).
  let left := digits * pow10 p.toNat * pow2 (2 - q).toNat
  let right (quarters : Nat) := quarters * pow2 (q - 2).toNat * pow10 (-p).toNat
  if m % 2 = 0 then right below ≤ left && left ≤ right above
  else right below < left && left < right above

/-- Which of two equally near decimals is chosen. -/
inductive Tie where
  | upper
  | even
  deriving DecidableEq, Repr

/-- Of a number and the one above it, the nearer one; `half` compares what was cut off with a
half. -/
def Tie.nearer (tie : Tie) (low : Nat) (half : Ordering) : Nat :=
  match half, tie with
  | .lt, _ => low
  | .gt, _ => low + 1
  | .eq, .upper => low + 1
  | .eq, .even => low + low % 2

/-- `m · 2^q / 10^p`, rounded down, and how what was cut off compares with a half. -/
def quotient (m : Nat) (q p : Int) : Nat × Ordering :=
  let num := m * pow2 q.toNat * pow10 (-p).toNat
  let den := pow2 (-q).toNat * pow10 p.toNat
  (num / den, compare (2 * (num % den)) den)

/-- The number of decimal digits before the point of m · 2^q, at least one. -/
def wholeDigits (m : Nat) (q : Int) : Nat :=
  (toString (quotient m q 0).1).length

/-- The zeros behind the point before the first digit of a number below one. -/
def leadingZeros (m : Nat) (q : Int) : (fuel : Nat) → (zeros : Nat) → Nat
  | 0, zeros => zeros
  | fuel + 1, zeros =>
    if (quotient m q (-(zeros + 1 : Int))).1 = 0 then leadingZeros m q fuel (zeros + 1) else zeros

/-- The power of ten of the first digit. -/
def firstPower (m : Nat) (q : Int) : Int :=
  if (quotient m q 0).1 = 0 then -(leadingZeros m q 330 0 + 1 : Int)
  else (wholeDigits m q : Int) - 1

/-- Digits and power of ten of the shortest decimal with at least `17 - tries` digits. -/
def shortestFrom (tie : Tie) (m : Nat) (q first : Int) : (tries : Nat) → Nat × Int
  | 0 => (quotient m q (first - 16)).1 |> fun digits => (digits, first - 16)
  | tries + 1 =>
    let p := first - (16 - tries : Int)
    let (low, half) := quotient m q p
    match readsBack m q low p, readsBack m q (low + 1) p with
    | true, true => (tie.nearer low half, p)
    | true, false => (low, p)
    | false, true => (low + 1, p)
    | false, false => shortestFrom tie m q first tries

/-- Digits and power of ten of the shortest decimal of m · 2^q, for positive m. A number right
below a power of ten may be rounded up to it. -/
def shortest (tie : Tie) (m : Nat) (q : Int) : Nat × Int :=
  let (digits, p) := shortestFrom tie m q (firstPower m q) 17
  if digits % 10 = 0 then (digits / 10, p + 1) else (digits, p)

/-- `digits · 10^p` in positional notation, with at least one place behind the point. -/
def positional (digits : Nat) (p : Int) : String :=
  if 0 ≤ p then toString digits ++ String.ofList (List.replicate p.toNat '0') ++ ".0"
  else
    let places := (-p).toNat
    let ds := (toString digits).toList
    let ds := List.replicate (places + 1 - ds.length) '0' ++ ds
    String.ofList (ds.take (ds.length - places)) ++ "." ++
      String.ofList (ds.drop (ds.length - places))

/-- A number as a text. Of two equally near decimals the upper one is written. -/
def render : Binary64 → String
  | .notANumber => "NaN"
  | .infinite negative => if negative then "-inf" else "inf"
  | .finite negative m q =>
    let magnitude := if m = 0 then "0.0" else
      let (digits, p) := shortest .upper m q
      positional digits p
    if negative then "-" ++ magnitude else magnitude

end Workbench.Binary64
