import MetaCache.Text.Printable
/-!
# Quoted text and hexadecimal numbers

Messages show a string between double quotes, so that its ends and its invisible characters can
be seen, and a hash as eight hexadecimal digits.

* `quote`: the quoted form of a string.
* `hex`, `hex8`: hexadecimal numbers, at their shortest and padded to eight digits.
-/

namespace MetaCache.Text

/-- `n` in hexadecimal, lower case, without leading zeros. -/
def hex (n : Nat) : String :=
  String.ofList (Nat.toDigits 16 n)

/-- A hash in hexadecimal, padded with zeros to eight digits. -/
def hex8 (h : UInt32) : String :=
  let digits := Nat.toDigits 16 h.toNat
  String.ofList (List.replicate (8 - digits.length) '0' ++ digits)

/-- How quoted text writes one character: a quote, a backslash and the common control characters
by a backslash and a letter, a formless character by its number, any other as itself. -/
def quoteChar (c : Char) : String :=
  if c = '"' then "\\\""
  else if c = '\\' then "\\\\"
  else if c = '\n' then "\\n"
  else if c = '\r' then "\\r"
  else if c = '\t' then "\\t"
  else if c.toNat = 0 then "\\0"
  else if ' ' ≤ c ∧ c ≤ '~' then c.toString
  else if isFormless c then "\\u\x7b" ++ hex c.toNat ++ "\x7d"
  else c.toString

/-- `s` between double quotes. -/
def quote (s : String) : String :=
  "\"" ++ String.join (s.toList.map quoteChar) ++ "\""

end MetaCache.Text
