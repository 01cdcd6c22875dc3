import MetaCache.Text.Quoted
/-!
# TOML strings

Strings stand between quotes, on one line or on several, with escapes (between double quotes) or
without (between single ones). They are read one character at a time, by machines whose state says
what the characters before call for.

* `basic`, `literal`, `multilineBasic`, `multilineLiteral`: readers of what follows the opening
  quotes; each answers the text and what follows the closing quotes.
* `writeString`: a string on one line, between double quotes.
-/

namespace MetaCache.Toml

/-- Whether a character is a control character other than the tab. -/
def isControl (c : Char) : Bool :=
  (c.toNat < 0x20 && c != '\t') || c.toNat == 0x7F

/-- Space and tab. -/
def isBlank (c : Char) : Bool :=
  c == ' ' || c == '\t'

/-- What follows a line break at the head: a line feed, or a carriage return and a line feed. -/
def afterBreak? : List Char → Option (List Char)
  | '\n' :: rest => some rest
  | '\r' :: '\n' :: rest => some rest
  | _ => none

/-- The value of a hexadecimal digit. -/
def hexValue? (c : Char) : Option Nat :=
  if '0' ≤ c ∧ c ≤ '9' then some (c.toNat - '0'.toNat)
  else if 'a' ≤ c ∧ c ≤ 'f' then some (c.toNat - 'a'.toNat + 10)
  else if 'A' ≤ c ∧ c ≤ 'F' then some (c.toNat - 'A'.toNat + 10)
  else none

/-- The character that a backslash and `c` stand for. -/
def escaped? (c : Char) : Option Char :=
  if c = 'b' then some '\x08'
  else if c = 't' then some '\t'
  else if c = 'n' then some '\n'
  else if c = 'f' then some '\x0c'
  else if c = 'r' then some '\r'
  else if c = 'e' then some '\x1b'
  else if c = '"' then some '"'
  else if c = '\\' then some '\\'
  else none

/-- The number of hexadecimal digits that a backslash and `c` call for. -/
def escapeDigits? (c : Char) : Option Nat :=
  if c = 'x' then some 2
  else if c = 'u' then some 4
  else if c = 'U' then some 8
  else none

/-- The character with that number, if there is one. -/
def scalar? (n : Nat) : Option Char :=
  if n.isValidChar then some (Char.ofNat n) else none

/-- What the characters read so far call for. -/
inductive Expect where
  /-- Text. -/
  | text
  /-- The rest of an escape. -/
  | escape
  /-- `left + 1` more digits of an escape whose digits so far have the value `value`. -/
  | digits (left value : Nat)

/-- Puts a character before the text that a reader answers. -/
def consText {ρ : Type} (c : Char) : Option (List Char × ρ) → Option (List Char × ρ) :=
  Option.map fun r => (c :: r.1, r.2)

/-- Puts characters before the text that a reader answers. -/
def appendText {ρ : Type} (cs : List Char) : Option (List Char × ρ) → Option (List Char × ρ) :=
  Option.map fun r => (cs ++ r.1, r.2)

/-- Reads a string with escapes on one line. -/
def basic : Expect → List Char → Option (List Char × List Char)
  | _, [] => none
  | .text, c :: rest =>
    if c = '"' then some ([], rest)
    else if c = '\\' then basic .escape rest
    else if isControl c then none
    else consText c (basic .text rest)
  | .escape, c :: rest =>
    match escaped? c, escapeDigits? c with
    | some d, _ => consText d (basic .text rest)
    | none, some n => basic (.digits (n - 1) 0) rest
    | none, none => none
  | .digits left value, c :: rest =>
    match hexValue? c with
    | none => none
    | some d =>
      match left with
      | left + 1 => basic (.digits left (16 * value + d)) rest
      | 0 =>
        match scalar? (16 * value + d) with
        | some e => consText e (basic .text rest)
        | none => none

/-- Reads a string without escapes on one line. -/
def literal : List Char → Option (List Char × List Char)
  | [] => none
  | c :: rest =>
    if c = '\'' then some ([], rest)
    else if isControl c then none
    else consText c (literal rest)

/-- Whether `c`, with `rest` after it, may not stand in a string on several lines. Of the control
characters only those of a line break may, and a break is kept as it is written. -/
def isBarred (c : Char) (rest : List Char) : Bool :=
  isControl c && c != '\n' && (afterBreak? (c :: rest)).isNone

/-- What the characters of a string on several lines call for. -/
inductive ExpectLines where
  | text
  /-- Text or closing quotes, after `n` quotes. -/
  | quotes (n : Nat)
  | escape
  | digits (left value : Nat)
  /-- The end of a line that ends in a backslash: blanks up to the end of the line break. -/
  | lineEnd
  /-- The text after such a line: blanks and line breaks are skipped. -/
  | nextLine

/-- Reads a string with escapes on several lines. Three quotes close it; one or two more before
other text belong to the string. -/
def multilineBasic : ExpectLines → List Char → Option (List Char × List Char)
  | .quotes n, [] => if 3 ≤ n then some (List.replicate (n - 3) '"', []) else none
  | _, [] => none
  | .quotes n, c :: rest =>
    if c = '"' then
      if n = 4 then some (['"', '"'], rest) else multilineBasic (.quotes (n + 1)) rest
    else if 3 ≤ n then some (List.replicate (n - 3) '"', c :: rest)
    else if c = '\\' then appendText (List.replicate n '"') (multilineBasic .escape rest)
    else if isBarred c rest then none
    else appendText (List.replicate n '"' ++ [c]) (multilineBasic .text rest)
  | .text, c :: rest =>
    if c = '"' then multilineBasic (.quotes 1) rest
    else if c = '\\' then multilineBasic .escape rest
    else if isBarred c rest then none
    else consText c (multilineBasic .text rest)
  | .escape, c :: rest =>
    if c = '\n' then multilineBasic .nextLine rest
    else if isBlank c || (afterBreak? (c :: rest)).isSome then multilineBasic .lineEnd rest
    else
      match escaped? c, escapeDigits? c with
      | some d, _ => consText d (multilineBasic .text rest)
      | none, some n => multilineBasic (.digits (n - 1) 0) rest
      | none, none => none
  | .digits left value, c :: rest =>
    match hexValue? c with
    | none => none
    | some d =>
      match left with
      | left + 1 => multilineBasic (.digits left (16 * value + d)) rest
      | 0 =>
        match scalar? (16 * value + d) with
        | some e => consText e (multilineBasic .text rest)
        | none => none
  | .lineEnd, c :: rest =>
    if c = '\n' then multilineBasic .nextLine rest
    else if isBlank c || (afterBreak? (c :: rest)).isSome then multilineBasic .lineEnd rest
    else none
  | .nextLine, c :: rest =>
    if isBlank c || (afterBreak? (c :: rest)).isSome then multilineBasic .nextLine rest
    else if c = '"' then multilineBasic (.quotes 1) rest
    else if c = '\\' then multilineBasic .escape rest
    else if isControl c then none
    else consText c (multilineBasic .text rest)

/-- Reads a string without escapes on several lines, after `n` quotes. -/
def multilineLiteral : Nat → List Char → Option (List Char × List Char)
  | n, [] => if 3 ≤ n then some (List.replicate (n - 3) '\'', []) else none
  | n, c :: rest =>
    if c = '\'' then
      if n = 4 then some (['\'', '\''], rest) else multilineLiteral (n + 1) rest
    else if 3 ≤ n then some (List.replicate (n - 3) '\'', c :: rest)
    else if isBarred c rest then none
    else appendText (List.replicate n '\'' ++ [c]) (multilineLiteral 0 rest)

/-- The text after a line break that directly follows the opening quotes. -/
def dropFirstBreak (cs : List Char) : List Char :=
  (afterBreak? cs).getD cs

/-- Four hexadecimal digits. -/
def hex4 (n : Nat) : List Char :=
  [n / 4096 % 16, n / 256 % 16, n / 16 % 16, n % 16].map Nat.digitChar

/-- How a character is written between double quotes: the quote, the backslash and control
characters by an escape, any other as itself. -/
def writeChar (c : Char) : List Char :=
  if c = '"' then ['\\', '"']
  else if c = '\\' then ['\\', '\\']
  else if c = '\n' then ['\\', 'n']
  else if c = '\r' then ['\\', 'r']
  else if c = '\t' then ['\\', 't']
  else if isControl c then '\\' :: 'u' :: hex4 c.toNat
  else [c]

/-- A string between double quotes. -/
def writeString (s : String) : List Char :=
  '"' :: (s.toList.flatMap writeChar ++ ['"'])

end MetaCache.Toml
