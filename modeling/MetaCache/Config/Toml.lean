import MetaCache.Config.Basic
import MetaCache.Toml.Document
/-!
# Settings as TOML

A configuration file assigns any of the four settings, by name; the others keep their defaults, and
keys that are no settings are passed over. What is assigned must be of the right type. Of several
mistakes the one whose key comes first in alphabetical order is reported.

* `Config.parse`: the settings that a text assigns.
* `Config.write`: the text that assigns all four, made of `Config.lines`.
-/

namespace MetaCache

namespace Config

/-- Why a text holds no settings: for a value of the wrong type and for an unknown name, what was
found and what was expected. -/
inductive Refusal where
  /-- The text is no TOML document. -/
  | malformed
  /-- A value is of a kind that its setting cannot be read from at all. -/
  | unreadable
  | wrongType (found expected : String)
  | unknownVariant (name : String) (expected : List String)
deriving DecidableEq, Repr

/-- A name between backquotes. -/
def backquoted (s : String) : String :=
  "\x60" ++ s ++ "\x60"

/-- The text of a refusal, for those that have one of their own. -/
def Refusal.message? : Refusal → Option String
  | malformed | unreadable => none
  | wrongType found expected => some ("invalid type: " ++ found ++ ", expected " ++ expected)
  | unknownVariant name expected =>
    let names := match expected with
      | [n] => backquoted n
      | ns => "one of " ++ ", ".intercalate (ns.map backquoted)
    some ("unknown variant " ++ backquoted name ++ ", expected " ++ names)

/-- The largest magnitude of a 64-bit signed integer, and of its wider kin, less one. -/
def intBound (bits : Nat) : Int := Int.pow 2 (bits - 1)

/-- What kind of value a node is, in the words of a refusal; none if it cannot be told. -/
def found? : Toml.Node → Option String
  | .str s => some ("string " ++ Text.quote s)
  | .int n =>
    if -intBound 64 ≤ n ∧ n < Int.pow 2 64 then some ("integer " ++ backquoted (toString n))
    else if -intBound 128 ≤ n ∧ n < intBound 128 then
      some ("integer " ++ backquoted (toString n) ++ " as i128")
    else if 0 ≤ n ∧ n < Int.pow 2 128 then
      some ("integer " ++ backquoted (toString n) ++ " as u128")
    else none
  | .malformedNumber => none
  | .float x =>
    let t := x.plain
    let t := if x.isNaN || x.isInfinite || t.toList.contains '.' then t else t ++ ".0"
    some ("floating point " ++ backquoted t)
  | .bool b => some ("boolean " ++ backquoted (toString b))
  | .datetime => some "map"
  | .array _ | .tables .. => some "sequence"
  | .inline _ | .table .. => some "map"

/-- The refusal of a node where another type is expected. -/
def typeRefusal (expected : String) (v : Toml.Node) : Refusal :=
  match found? v with
  | some found => .wrongType found expected
  | none => .unreadable

/-- A truth value. -/
def readFlag : Toml.Node → Except Refusal Bool
  | .bool b => .ok b
  | v => .error (typeRefusal "a boolean" v)

/-- A text. -/
def readText : Toml.Node → Except Refusal String
  | .str s => .ok s
  | v => .error (typeRefusal "a string" v)

/-- Whether a node is an empty array or an empty table. -/
def isEmptyNode : Toml.Node → Bool
  | .array [] | .inline [] | .table _ [] => true
  | _ => false

/-- One of the named values of an enumeration: its name as a text, or a table whose one key is the
name and whose value is empty. -/
def readName {α : Type} (ofName? : String → Option α) (names : List String) :
    Toml.Node → Except Refusal α
  | .str s => (ofName? s).elim (.error (.unknownVariant s names)) .ok
  | .inline [(s, v)] | .table _ [(s, v)] =>
    match ofName? s with
    | none => .error (.unknownVariant s names)
    | some a => if isEmptyNode v then .ok a else .error .unreadable
  | _ => .error .unreadable

mutual

/-- Whether a value that is passed over can be read at all: its numbers must be numbers, and not too
large. -/
def isReadable : Toml.Node → Bool
  | .int n => (found? (.int n)).isSome
  | .malformedNumber => false
  | .array items => areReadable items
  | .inline es | .table _ es => entriesReadable es
  | .tables closed last => tablesReadable closed && entriesReadable last
  | _ => true

/-- Whether all items can be read. -/
def areReadable : List Toml.Node → Bool
  | [] => true
  | v :: rest => isReadable v && areReadable rest

/-- Whether all entries can be read. -/
def entriesReadable : List (String × Toml.Node) → Bool
  | [] => true
  | (_, v) :: rest => isReadable v && entriesReadable rest

/-- Whether all tables can be read. -/
def tablesReadable : List (List (String × Toml.Node)) → Bool
  | [] => true
  | es :: rest => entriesReadable es && tablesReadable rest

end

/-- The settings with the one that `key` names read from `v`. -/
def readSetting (c : Config) (key : String) (v : Toml.Node) : Except Refusal Config :=
  if key = "layout" then
    (readName Layout.ofName? (Layout.all.map Layout.name) v).map fun layout => { c with layout }
  else if key = "weaken_policy" then
    (readName WeakenPolicy.ofName? (WeakenPolicy.all.map WeakenPolicy.name) v).map
      fun weakenPolicy => { c with weakenPolicy }
  else if key = "instance_base_class" then
    (readText v).map fun instanceBaseClass => { c with instanceBaseClass }
  else if key = "share_slot_keys" then
    (readFlag v).map fun shareSlotKeys => { c with shareSlotKeys }
  else if isReadable v then .ok c
  else .error .unreadable

/-- The settings with those read that the entries assign. -/
def readEntries (c : Config) : Toml.Entries → Except Refusal Config
  | [] => .ok c
  | (key, v) :: rest => (c.readSetting key v).bind fun c => c.readEntries rest

/-- The settings that a text assigns. -/
def parse (text : String) : Except Refusal Config :=
  match Toml.document? text with
  | none => .error .malformed
  | some es => Config.readEntries {} es

/-- The assignment of a text to a setting, as one line. -/
def writeLine (key : String) (value : List Char) : List Char :=
  key.toList ++ " = ".toList ++ value ++ ['\n']

/-- The assignments of all four settings, one line each. -/
def lines (c : Config) : List (List Char) :=
  [writeLine "layout" (Toml.writeString c.layout.name),
    writeLine "weaken_policy" (Toml.writeString c.weakenPolicy.name),
    writeLine "instance_base_class" (Toml.writeString c.instanceBaseClass),
    writeLine "share_slot_keys" (toString c.shareSlotKeys).toList]

/-- The text that assigns all four settings. -/
def write (c : Config) : String :=
  String.ofList c.lines.flatten

end Config

end MetaCache
