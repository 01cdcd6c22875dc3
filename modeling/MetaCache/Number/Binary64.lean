/-!
# Floating-point numbers as bit patterns

A floating-point value is kept as its 64 bits. Nothing here computes with floats; what is needed
is to tell two apart as IEEE 754 does, to ask whether one is zero, and to know its exact value.

* `Binary64.same`: IEEE equality, by which a NaN equals nothing and the two zeros are equal.
* `Binary64.magnitude`: the absolute value of a finite number as `m · 2 ^ (e - 1075)`.
-/

namespace MetaCache

/-- A floating-point number of double precision, by its bits. -/
structure Binary64 where
  bits : UInt64
deriving DecidableEq, Repr, Inhabited

namespace Binary64

/-- Whether the sign bit is set. -/
def isNegative (x : Binary64) : Bool :=
  x.bits >>> 63 == 1

/-- The eleven exponent bits. -/
def exponentBits (x : Binary64) : Nat :=
  ((x.bits >>> 52) &&& 0x7FF).toNat

/-- The 52 fraction bits. -/
def fractionBits (x : Binary64) : Nat :=
  (x.bits &&& 0xFFFFFFFFFFFFF).toNat

/-- Whether `x` is not a number. -/
def isNaN (x : Binary64) : Bool :=
  x.exponentBits == 0x7FF && x.fractionBits != 0

/-- Whether `x` is one of the two infinities. -/
def isInfinite (x : Binary64) : Bool :=
  x.exponentBits == 0x7FF && x.fractionBits == 0

/-- Whether `x` is one of the two zeros. -/
def isZero (x : Binary64) : Bool :=
  x.exponentBits == 0 && x.fractionBits == 0

/-- IEEE equality. -/
def same (x y : Binary64) : Bool :=
  !x.isNaN && !y.isNaN && (x == y || (x.isZero && y.isZero))

/-- The one bit pattern by which every NaN is shown. -/
def canonicalNaN : Binary64 := ⟨0x7FF8000000000000⟩

/-- `x`, with any NaN replaced by the canonical one. -/
def canonical (x : Binary64) : Binary64 :=
  if x.isNaN then canonicalNaN else x

/-- The significand and the biased exponent of a finite number: its absolute value is
`m · 2 ^ (e - 1075)`. A subnormal number has the exponent of the smallest normal one. -/
def magnitude (x : Binary64) : Nat × Nat :=
  if x.exponentBits = 0 then (x.fractionBits, 1)
  else (x.fractionBits + Nat.pow 2 52, x.exponentBits)

end Binary64

end MetaCache
