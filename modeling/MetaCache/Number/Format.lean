import MetaCache.Number.Shortest
/-!
# Numbers as text

Every finite number is shown by its shortest digits. Plain text never has an exponent; the text
inside messages keeps a fractional part and turns to an exponent for very large and very small
numbers.

* `Layout`: the decisions of a format.
* `Binary64.plain`, `Binary64.shown`: the two formats.
-/

namespace MetaCache.Number

/-- How a finite number is laid out. -/
structure Layout where
  /-- Whether a number without a fractional part ends in `.0`. -/
  keepsPoint : Bool
  /-- Whether a leading digit at `10 ^ E` asks for an exponent. -/
  scientific : Int → Bool

/-- The format of plain text: digits only. -/
def plainLayout : Layout where
  keepsPoint := false
  scientific := fun _ => false

/-- The format inside messages: an exponent from `10 ^ 16` on and below `10 ^ -4`. -/
def shownLayout : Layout where
  keepsPoint := true
  scientific := fun E => E < -4 || 16 ≤ E

/-- `n` zeros. -/
def zeros (n : Nat) : List Char := List.replicate n '0'

namespace Layout

/-- The digits `ds` with the point after the first `point` of them. -/
def positional (l : Layout) (ds : List Char) (point : Int) : List Char :=
  if point ≤ 0 then '0' :: '.' :: (zeros (-point).toNat ++ ds)
  else
    let p := point.toNat
    if ds.length ≤ p then
      ds ++ zeros (p - ds.length) ++ (if l.keepsPoint then ['.', '0'] else [])
    else ds.take p ++ '.' :: ds.drop p

/-- The digits `ds` as one digit, a fraction and the exponent `E`. -/
def withExponent (ds : List Char) (E : Int) : List Char :=
  let fraction := match ds.drop 1 with
    | [] => []
    | rest => '.' :: rest
  ds.take 1 ++ fraction ++ 'e' :: (toString E).toList

/-- The text of a decimal. -/
def decimal (l : Layout) (d : Decimal) : List Char :=
  let ds := Nat.toDigits 10 d.digits
  let E := d.exponent + ds.length - 1
  if l.scientific E then withExponent ds E else l.positional ds (E + 1)

/-- The text of a number. -/
def render (l : Layout) (x : Binary64) : String :=
  if x.isNaN then "NaN"
  else
    let body :=
      if x.isInfinite then "inf".toList
      else if x.isZero then (if l.keepsPoint then "0.0" else "0").toList
      else l.decimal (shortest x)
    String.ofList (if x.isNegative then '-' :: body else body)

end Layout

end MetaCache.Number

namespace MetaCache.Binary64

/-- The plain text of a number. -/
def plain (x : Binary64) : String := Number.plainLayout.render x

/-- The text of a number inside messages. -/
def shown (x : Binary64) : String := Number.shownLayout.render x

/-- The hexadecimal digits of the bits, most significant first, sixteen of them. -/
def hexBits (x : Binary64) : String :=
  let ds := Nat.toDigits 16 x.bits.toNat
  String.ofList (List.replicate (16 - ds.length) '0' ++ ds)

/-- The number whose bits are written by `s` in hexadecimal. -/
def ofHex? (s : String) : Option Binary64 :=
  let step (acc : Option Nat) (c : Char) : Option Nat := do
    let n ← acc
    if c.isDigit then some (16 * n + (c.toNat - '0'.toNat))
    else if 'a' ≤ c ∧ c ≤ 'f' then some (16 * n + (c.toNat - 'a'.toNat + 10))
    else none
  (s.toList.foldl step (some 0)).map fun n => ⟨UInt64.ofNat n⟩

end MetaCache.Binary64
