import MetaCache.Toml.Scalar
/-!
# Reading TOML

A document is a sequence of lines: assignments `key = value`, headers `[a.b]` and `[[a.b]]`, blank
lines and comments. Arrays and inline tables may run over several lines, with comments at their
ends. How deep values are nested, and how many parts a key has, is limited.

* `document?`: the entries of the top table of a document.
* `value?`: one value.
-/

namespace MetaCache.Toml

/-- How deep arrays and inline tables can be nested, and how many parts a key can have. -/
def depthLimit : Nat := 80

/-- What follows a comment: a line break or the end. Comments hold no control characters. -/
def afterComment? : List Char → Option (List Char)
  | [] => some []
  | c :: rest =>
    if (afterBreak? (c :: rest)).isSome then some (c :: rest)
    else if isControl c then none
    else afterComment? rest

/-- Skips blanks. -/
def skipBlanks (cs : List Char) : List Char :=
  cs.dropWhile isBlank

/-- Skips blanks, line breaks and comments; `inComment` tells where it starts. -/
def skipSpace? : Bool → List Char → Option (List Char)
  | _, [] => some []
  | _, '\n' :: rest => skipSpace? false rest
  | _, '\r' :: '\n' :: rest => skipSpace? false rest
  | true, c :: rest => if isControl c then none else skipSpace? true rest
  | false, c :: rest =>
    if isBlank c then skipSpace? false rest
    else if c = '#' then skipSpace? true rest
    else some (c :: rest)

/-- Whether `c` can be part of a key without quotes. -/
def isBareKeyChar (c : Char) : Bool :=
  isDigit c || ('a' ≤ c && c ≤ 'z') || ('A' ≤ c && c ≤ 'Z') || c == '_' || c == '-'

/-- One part of a key. -/
def keyPart? : List Char → Option (String × List Char)
  | '"' :: rest => (basic .text rest).map fun r => (String.ofList r.1, r.2)
  | '\'' :: rest => (literal rest).map fun r => (String.ofList r.1, r.2)
  | cs =>
    let k := cs.takeWhile isBareKeyChar
    if k.isEmpty then none else some (String.ofList k, cs.drop k.length)

/-- A key: parts with dots between them, of which there are at most `n`. What follows is answered
without leading blanks. -/
def key? : Nat → List Char → Option (List String × List Char)
  | 0, _ => none
  | n + 1, cs => do
    let (part, cs) ← keyPart? cs
    match skipBlanks cs with
    | '.' :: rest =>
      let (parts, rest) ← key? n (skipBlanks rest)
      some (part :: parts, rest)
    | rest => some ([part], rest)

/-- Whether `c` can be part of a word; blanks can, between other characters. -/
def isWordChar (c : Char) : Bool :=
  !(c == '\n' || c == '\r' || c == ',' || c == '=' || c == '[' || c == ']' || c == '\x7b' ||
    c == '\x7d' || c == '#')

/-- The characters of a word at the head, with blanks that follow; `afterBlank` tells whether a
blank precedes. After a blank a quote starts something else. -/
def wordChars : Bool → List Char → List Char
  | _, [] => []
  | afterBlank, c :: rest =>
    if !isWordChar c || (afterBlank && (c == '"' || c == '\'')) then []
    else c :: wordChars (isBlank c) rest

/-- The word at the head, and what follows. A word may hold blanks, as a date and a time do. -/
def splitWord (cs : List Char) : List Char × List Char :=
  let w := ((wordChars false cs).reverse.dropWhile isBlank).reverse
  (w, cs.drop w.length)

/-- A string, whose opening quote `q` has been read. -/
def string? (q : Char) (cs : List Char) : Option (List Char × List Char) :=
  match cs with
  | c :: d :: rest =>
    if c = q ∧ d = q then
      if q = '"' then multilineBasic .text (dropFirstBreak rest)
      else multilineLiteral 0 (dropFirstBreak rest)
    else if q = '"' then basic .text cs else literal cs
  | _ => if q = '"' then basic .text cs else literal cs

mutual

/-- A value in which arrays and inline tables are nested at most `depth` deep. The first number
bounds the brackets, commas and values on the way to any part of it. -/
def value? : Nat → Nat → List Char → Option (Node × List Char)
  | 0, _, _ => none
  | n + 1, depth, cs =>
    match cs with
    | [] => none
    | c :: rest =>
      if c = '"' ∨ c = '\'' then (string? c rest).map fun r => (.str (String.ofList r.1), r.2)
      else if c = '[' ∨ c = '\x7b' then
        match depth with
        | 0 => none
        | depth + 1 =>
          if c = '[' then (items? n depth rest).map fun r => (.array r.1, r.2)
          else (fields? n depth rest []).map fun r => (.inline r.1, r.2)
      else
        let (w, rest) := splitWord cs
        (word w).map fun v => (v, rest)

/-- The items of an array and its closing bracket. -/
def items? : Nat → Nat → List Char → Option (List Node × List Char)
  | 0, _, _ => none
  | n + 1, depth, cs => do
    match ← skipSpace? false cs with
    | ']' :: rest => some ([], rest)
    | cs =>
      let (v, cs) ← value? n depth cs
      match ← skipSpace? false cs with
      | ',' :: rest => (items? n depth rest).map fun r => (v :: r.1, r.2)
      | ']' :: rest => some ([v], rest)
      | _ => none

/-- The assignments of an inline table and its closing brace, added to `es`. -/
def fields? : Nat → Nat → List Char → Entries → Option (Entries × List Char)
  | 0, _, _, _ => none
  | n + 1, depth, cs, es => do
    match ← skipSpace? false cs with
    | [] => none
    | c :: rest =>
      if c = '\x7d' then some (es, rest)
      else
        let (path, cs) ← key? depthLimit (c :: rest)
        let cs ← after? '=' (← skipSpace? false cs)
        let (v, cs) ← value? n depth (← skipSpace? false cs)
        let es ← Entries.assign v true path es
        match ← skipSpace? false cs with
        | [] => none
        | c :: rest =>
          if c = ',' then fields? n depth rest es
          else if c = '\x7d' then some (es, rest)
          else none

end

/-- What follows the end of a line: blanks, perhaps a comment, and a line break or the end. -/
def afterLine? (cs : List Char) : Option (List Char) := do
  let cs := skipBlanks cs
  let cs ← match cs with
    | '#' :: rest => afterComment? rest
    | _ => some cs
  if cs.isEmpty then some [] else afterBreak? cs

/-- A document in the making: its top table, and the path of the table that assignments go to. -/
structure Draft where
  top : Entries := []
  path : List String := []

namespace Draft

/-- The effect of an assignment. -/
def assign (d : Draft) (key : List String) (v : Node) : Option Draft :=
  (Entries.within (Entries.assign v true key) d.path d.top).map fun top => { d with top }

/-- The effect of a header. -/
def header (d : Draft) (isElement : Bool) (path : List String) : Option Draft :=
  match path.getLast? with
  | none => none
  | some k =>
    let open_ := if isElement then Entries.openElement k else Entries.openTable k
    (Entries.within open_ path.dropLast d.top).map fun top => { top, path }

/-- The effect of the line at the head, and what follows it. A line that is blank but for a comment
has none. -/
def line (d : Draft) (cs : List Char) : Option (Draft × List Char) := do
  match skipBlanks cs with
  | '[' :: '[' :: rest =>
    let (path, rest) ← key? depthLimit (skipBlanks rest)
    let rest ← after? ']' rest
    let rest ← after? ']' rest
    return (← d.header true path, ← afterLine? rest)
  | '[' :: rest =>
    let (path, rest) ← key? depthLimit (skipBlanks rest)
    let rest ← after? ']' rest
    return (← d.header false path, ← afterLine? rest)
  | [] => some (d, [])
  | c :: rest =>
    if c = '\n' ∨ c = '\r' ∨ c = '#' then some (d, ← afterLine? (c :: rest))
    else
      let (key, rest) ← key? depthLimit (c :: rest)
      let rest ← after? '=' rest
      let (v, rest) ← value? (rest.length + 1) depthLimit (skipBlanks rest)
      return (← d.assign key v, ← afterLine? rest)

/-- The effect of at most `n` lines. -/
def lines (d : Draft) : Nat → List Char → Option Draft
  | _, [] => some d
  | 0, _ :: _ => none
  | n + 1, cs => do
    let (d, cs) ← d.line cs
    d.lines n cs

end Draft

/-- The entries of the top table of a document, if the text is one. A byte order mark at its start
is skipped. -/
def document? (text : String) : Option Entries :=
  let cs := match text.toList with
    | '\ufeff' :: rest => rest
    | cs => cs
  (Draft.lines {} cs.length cs).map Draft.top

end MetaCache.Toml
