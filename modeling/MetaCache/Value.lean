import MetaCache.Number.Format
/-!
# Host values

A value is a plain scalar or a reference to a cell of the store. A strong reference owns its cell;
a weak one does not keep it alive, and reads as undefined once the cell is gone.

* `Value`: the values the cache exchanges with its host.
* `Value.same`: equality; references are equal if they point at the same cell.
* `Value.text?`: the text of a scalar.
-/

namespace MetaCache

/-- Identity of a cell. No identity is used twice, so a weak reference to a cell that is gone never
comes to point at another one. -/
abbrev CellId := Nat

/-- A host value. -/
inductive Value where
  | undef
  | int (n : Int)
  | num (x : Binary64)
  | str (s : String)
  | ref (cell : CellId)
  | weak (cell : CellId)
deriving DecidableEq, Repr, Inhabited

namespace Value

/-- Equality as the host sees it: numbers compare by IEEE equality, references by identity, and
values of different kinds are different. -/
def same : Value → Value → Bool
  | undef, undef => true
  | int a, int b => a == b
  | num a, num b => a.same b
  | str a, str b => a == b
  | ref a, ref b => a == b
  | weak a, weak b => a == b
  | _, _ => false

/-- The cell of a strong reference. -/
def strong? : Value → Option CellId
  | ref c => some c
  | _ => none

/-- Whether the value is a reference of either kind. -/
def isReference : Value → Bool
  | ref _ | weak _ => true
  | _ => false

/-- Whether the value is a weak reference. -/
def isWeak : Value → Bool
  | weak _ => true
  | _ => false

/-- The text of a scalar; references and the undefined value have none. -/
def text? : Value → Option String
  | str s => some s
  | int n => some (toString n)
  | num x => some x.plain
  | undef | ref _ | weak _ => none

/-- The truth of a value that is no weak reference: the undefined value, zero and the strings `""`
and `"0"` are false. -/
def isTrue : Value → Bool
  | undef => false
  | int n => n != 0
  | num x => !x.isZero
  | str s => !(s.isEmpty || s == "0")
  | ref _ | weak _ => true

end Value

/-- The kinds of container that a trivial default can produce. -/
inductive ContainerKind where
  | scalar
  | array
  | hash
deriving DecidableEq, Repr, Inhabited

namespace ContainerKind

/-- The name of a kind of container. -/
def name : ContainerKind → String
  | scalar => "scalar"
  | array => "array"
  | hash => "hash"

/-- All kinds, in order. -/
def all : List ContainerKind := [scalar, array, hash]

/-- The kind of that name. -/
def ofName? (s : String) : Option ContainerKind :=
  all.find? (·.name == s)

end ContainerKind

end MetaCache
