import MetaCache.Number.Binary64
/-!
# The shortest decimal that reads back

A finite number other than zero is shown with the fewest significant digits that still identify it:
the decimal lies in the interval of reals that round to the number (ends included when its
significand is even), no decimal with fewer digits does, and of those with as many digits it is
nearest to the number, the larger one if two are equally near.

* `Scaled`: a positive rational, as a quotient of two naturals.
* `shortest`: the digits and the exponent of a number.
-/

namespace MetaCache.Number

/-- A positive rational `num / den`. -/
structure Scaled where
  num : Nat
  den : Nat

namespace Scaled

/-- `m · 2 ^ (e - bias)`. -/
def ofBinary (m e bias : Nat) : Scaled :=
  if bias ≤ e then ⟨m * Nat.pow 2 (e - bias), 1⟩ else ⟨m, Nat.pow 2 (bias - e)⟩

/-- `m · 10 ^ k`. -/
def ofDecimal (m : Nat) (k : Int) : Scaled :=
  if 0 ≤ k then ⟨m * Nat.pow 10 k.toNat, 1⟩ else ⟨m, Nat.pow 10 (-k).toNat⟩

/-- `a < b`. -/
def lt (a b : Scaled) : Bool :=
  a.num * b.den < b.num * a.den

/-- `a ≤ b`. -/
def le (a b : Scaled) : Bool :=
  a.num * b.den ≤ b.num * a.den

/-- The largest `d` with `d · 10 ^ k ≤ a`. -/
def floorAt (a : Scaled) (k : Int) : Nat :=
  if 0 ≤ k then a.num / (a.den * Nat.pow 10 k.toNat)
  else a.num * Nat.pow 10 (-k).toNat / a.den

/-- The number of digits of a positive natural. -/
def digitCount (n : Nat) : Nat :=
  (Nat.toDigits 10 n).length

/-- The exponent of the leading digit: `10 ^ E ≤ a < 10 ^ (E + 1)`. -/
def leadingExponent (a : Scaled) : Int :=
  if a.den ≤ a.num then (digitCount (a.num / a.den) : Int) - 1
  else -(digitCount ((a.den + a.num - 1) / a.num - 1) : Int)

end Scaled

/-- A decimal `digits · 10 ^ exponent`. -/
structure Decimal where
  digits : Nat
  exponent : Int
deriving Repr, DecidableEq

/-- The reals that round to a number: `low` and `high`, and whether they belong to it. -/
structure Rounding where
  low : Scaled
  value : Scaled
  high : Scaled
  closed : Bool

namespace Rounding

/-- The interval of a finite number other than zero. The gap below a power of two is half the gap
above it, but for the smallest normal exponent. -/
def ofBinary64 (x : Binary64) : Rounding :=
  let (m, e) := x.magnitude
  let below := if m = Nat.pow 2 52 ∧ 1 < e then 4 * m - 1 else 4 * m - 2
  { low := .ofBinary below e 1077
    value := .ofBinary m e 1075
    high := .ofBinary (4 * m + 2) e 1077
    closed := m % 2 = 0 }

/-- Whether the decimal `d` rounds to the number. -/
def holds (r : Rounding) (d : Decimal) : Bool :=
  let a := Scaled.ofDecimal d.digits d.exponent
  if r.closed then r.low.le a && a.le r.high else r.low.lt a && a.lt r.high

/-- Of the two neighbours of the number on the grid of multiples of `10 ^ k`, the nearer one that
rounds to the number; the upper one if both are equally near. -/
def onGrid? (r : Rounding) (k : Int) : Option Decimal :=
  let down := r.value.floorAt k
  let lower : Decimal := ⟨down, k⟩
  let upper : Decimal := ⟨down + 1, k⟩
  match r.holds lower, r.holds upper with
  | true, true =>
    let middle := Scaled.ofDecimal (10 * down + 5) (k - 1)
    if r.value.lt middle then some lower else some upper
  | true, false => some lower
  | false, true => some upper
  | false, false => none

/-- The first grid, from the coarsest of `E - 16 … E` on, that has a hit. -/
def search (r : Rounding) (E : Int) : Nat → Decimal
  | 0 => ⟨r.value.floorAt (E - 16), E - 16⟩
  | n + 1 =>
    match r.onGrid? (E - 16 + n) with
    | some d => d
    | none => search r E n

end Rounding

/-- `d` without the trailing zeros of its digits, at most `n` of them. -/
def Decimal.trim (d : Decimal) : Nat → Decimal
  | 0 => d
  | n + 1 => if d.digits % 10 = 0 then trim ⟨d.digits / 10, d.exponent + 1⟩ n else d

/-- The shortest decimal of the absolute value of a finite number other than zero. -/
def shortest (x : Binary64) : Decimal :=
  let r := Rounding.ofBinary64 x
  (r.search r.value.leadingExponent 17).trim 17

end MetaCache.Number
