import MetaCache.Toml.Node
import MetaCache.Toml.Quoted
/-!
# TOML numbers, booleans and dates

Everything that is neither a string nor a bracketed value is one word, and the form of the word says
what it is. Some words have the form of an integer with digits that are none; they are values all
the same, but nothing can be read from them.

* `word`: the value of a word.
* `isMalformedInteger`: the words that only look like integers.
-/

namespace MetaCache.Toml

/-- Whether `c` is a decimal digit. -/
def isDigit (c : Char) : Bool := '0' ≤ c && c ≤ '9'

/-- The value of the digits of a number in base `base`; underscores may stand between digits.
`afterDigit` tells whether a digit precedes. -/
def digitsValue? (base : Nat) : Bool → Nat → List Char → Option Nat
  | afterDigit, acc, [] => if afterDigit then some acc else none
  | afterDigit, acc, c :: rest =>
    if c = '_' then
      match afterDigit, rest with
      | true, d :: _ => if (hexValue? d).isSome then digitsValue? base false acc rest else none
      | _, _ => none
    else
      match hexValue? c with
      | some d => if d < base then digitsValue? base true (base * acc + d) rest else none
      | none => none

/-- The value of a natural number in base ten, which has no leading zero. -/
def decimal? (cs : List Char) : Option Nat :=
  match cs with
  | '0' :: _ :: _ => none
  | _ => digitsValue? 10 false 0 cs

/-- The sign of a number, and the rest of it. -/
def splitSign : List Char → Bool × List Char
  | '+' :: rest => (false, rest)
  | '-' :: rest => (true, rest)
  | cs => (false, cs)

/-- The integer that a word denotes. -/
def integer? (cs : List Char) : Option Int :=
  match cs with
  | '0' :: 'x' :: rest => (digitsValue? 16 false 0 rest).map Int.ofNat
  | '0' :: 'o' :: rest => (digitsValue? 8 false 0 rest).map Int.ofNat
  | '0' :: 'b' :: rest => (digitsValue? 2 false 0 rest).map Int.ofNat
  | _ =>
    let (negative, digits) := splitSign cs
    (decimal? digits).map fun n => if negative then -(n : Int) else n

/-- Whether each underscore stands between two hexadecimal digits; `afterDigit` tells whether a
digit precedes. -/
def joinsDigits : Bool → List Char → Bool
  | _, [] => true
  | afterDigit, c :: rest =>
    if c = '_' then afterDigit && rest.head?.any (fun d => (hexValue? d).isSome) &&
      joinsDigits false rest
    else joinsDigits (hexValue? c).isSome rest

/-- Whether a word that is no integer has the form of one. Either it announces a base, and no digit
follows; or it starts with decimal digits, the first of them not zero, and an underscore, after
which anything may follow but a space and what makes the number a floating-point one. -/
def isMalformedInteger (cs : List Char) : Bool :=
  let (_, body) := splitSign cs
  let digits := body.takeWhile isDigit
  cs == "0x".toList || cs == "0o".toList || cs == "0b".toList ||
    (digits.head?.any (· != '0') && (body.drop digits.length).head? == some '_' &&
      !body.any (fun c => c == ' ' || c == '.' || c == 'e' || c == 'E') && joinsDigits false body)

/-- The number `m · 10 ^ e`, correctly rounded, with a sign; none if it is too large. -/
def binary64OfDecimal (negative : Bool) (m : Nat) (e : Int) : Option Binary64 :=
  let digits : Int := Number.Scaled.digitCount m
  let x : Float :=
    if m = 0 ∨ e + digits < -400 then 0.0
    else if 400 < e + digits then 1.0 / 0.0
    else if 0 ≤ e then Float.ofScientific m false e.toNat
    else Float.ofScientific m true (-e).toNat
  let b : Binary64 := ⟨x.toBits⟩
  if b.isInfinite then none
  else some (if negative then ⟨b.bits ||| 0x8000000000000000⟩ else b)

/-- The exponent part of a number: nothing, or an `e` and an integer. -/
def exponent? : List Char → Option Int
  | [] => some 0
  | c :: rest =>
    if c = 'e' || c = 'E' then
      let (negative, digits) := splitSign rest
      (digitsValue? 10 false 0 digits).map fun n => if negative then -(n : Int) else n
    else none

/-- Whether `c` is an `e` of an exponent. -/
def isExponentMark (c : Char) : Bool := c == 'e' || c == 'E'

/-- The floating-point number that a word denotes: an integer part, a fraction or an exponent or
both; or infinity, or not a number. -/
def float? (cs : List Char) : Option (Option Binary64) :=
  let (negative, body) := splitSign cs
  let signed (bits : UInt64) : Binary64 := ⟨if negative then bits ||| 0x8000000000000000 else bits⟩
  if body = "inf".toList then some (some (signed 0x7FF0000000000000))
  else if body = "nan".toList then some (some (signed 0x7FF8000000000000))
  else
    let whole := body.takeWhile fun c => c != '.' && !isExponentMark c
    match body.drop whole.length with
    | [] => none
    | c :: rest =>
      let fraction := if c = '.' then rest.takeWhile fun c => !isExponentMark c else []
      let tail := if c = '.' then rest.drop fraction.length else c :: rest
      if c = '.' && (digitsValue? 10 false 0 fraction).isNone then none
      else
        match decimal? whole, exponent? tail with
        | some w, some e =>
          let places := fraction.filter isDigit
          let m := places.foldl (fun acc d => 10 * acc + (d.toNat - '0'.toNat)) w
          some (binary64OfDecimal negative m (e - places.length))
        | _, _ => none

/-- The value of exactly `n` digits at the head, and what follows. -/
def fixedDigits? (n : Nat) (cs : List Char) : Option (Nat × List Char) :=
  let ds := cs.take n
  if ds.length = n && ds.all isDigit then
    some (ds.foldl (fun acc d => 10 * acc + (d.toNat - '0'.toNat)) 0, cs.drop n)
  else none

/-- What follows the character `c` at the head. -/
def after? (c : Char) : List Char → Option (List Char)
  | d :: rest => if d = c then some rest else none
  | [] => none

/-- The number of days of a month. -/
def daysIn (year month : Nat) : Nat :=
  if month = 2 then
    if year % 4 = 0 ∧ (year % 100 ≠ 0 ∨ year % 400 = 0) then 29 else 28
  else if month = 4 ∨ month = 6 ∨ month = 9 ∨ month = 11 then 30
  else 31

/-- What follows a date. -/
def afterDate? (cs : List Char) : Option (List Char) := do
  let (year, cs) ← fixedDigits? 4 cs
  let cs ← after? '-' cs
  let (month, cs) ← fixedDigits? 2 cs
  let cs ← after? '-' cs
  let (day, cs) ← fixedDigits? 2 cs
  if 1 ≤ month ∧ month ≤ 12 ∧ 1 ≤ day ∧ day ≤ daysIn year month then some cs else none

/-- What follows the seconds and their fraction, which may be missing. -/
def afterSeconds? : List Char → Option (List Char)
  | ':' :: cs => do
    let (second, cs) ← fixedDigits? 2 cs
    if 60 < second then none
    else
      match cs with
      | '.' :: rest =>
        let places := rest.takeWhile isDigit
        if places.isEmpty then none else some (rest.drop places.length)
      | _ => some cs
  | cs => some cs

/-- What follows hours and minutes. -/
def afterMinutes? (cs : List Char) : Option (List Char) := do
  let (hour, cs) ← fixedDigits? 2 cs
  let cs ← after? ':' cs
  let (minute, cs) ← fixedDigits? 2 cs
  if hour ≤ 23 ∧ minute ≤ 59 then some cs else none

/-- What follows a time. -/
def afterTime? (cs : List Char) : Option (List Char) :=
  (afterMinutes? cs).bind afterSeconds?

/-- Whether a word is an offset from universal time, or empty. -/
def isOffset : List Char → Bool
  | [] | ['Z'] | ['z'] => true
  | c :: rest => (c == '+' || c == '-') && afterMinutes? rest == some []

/-- Whether a word is a date, a time, or a date with a time and perhaps an offset. -/
def isDatetime (cs : List Char) : Bool :=
  afterTime? cs == some [] ||
    match afterDate? cs with
    | some [] => true
    | some (c :: rest) =>
      (c == 'T' || c == 't' || c == ' ') && (afterTime? rest).any isOffset
    | none => false

/-- The value of a word. -/
def word (cs : List Char) : Option Node :=
  if cs = "true".toList then some (.bool true)
  else if cs = "false".toList then some (.bool false)
  else
    match integer? cs, float? cs with
    | some n, _ => some (.int n)
    | none, some (some x) => some (.float x)
    | none, some none => some .malformedNumber
    | none, none =>
      if isDatetime cs then some .datetime
      else if isMalformedInteger cs then some .malformedNumber
      else none

end MetaCache.Toml
