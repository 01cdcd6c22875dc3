import MetaCache.Text.Quoted
import MetaCache.Text.SipHash
/-!
# Slot keys

A key is a name together with its hash, computed once. The name is a shared string: copies of a key
share it, and the store counts its owners. Two keys denote the same slot when their names are equal,
whether or not the string is shared.

* `SharedName`: a string with an identity.
* `Key`: a shared name and its hash.
* `Key.sameSlot`, `Key.sharesNameWith`: equality of names, and identity of the shared string.
-/

namespace MetaCache

/-- Identity of a shared string. No identity is used twice. -/
abbrev NameId := Nat

/-- A string allocated once and shared by its owners. -/
structure SharedName where
  id : NameId
  text : String
deriving DecidableEq, Repr, Inhabited

/-- A name with its hash. -/
structure Key where
  name : SharedName
  hash : UInt32
deriving DecidableEq, Repr, Inhabited

namespace Key

/-- The text of the key's name. -/
def text (k : Key) : String := k.name.text

/-- Whether two keys share one string. -/
def sharesNameWith (a b : Key) : Bool :=
  a.name.id == b.name.id

/-- Whether two keys denote the same slot. The hashes are compared first, then identity, and only
then the texts. -/
def sameSlot (a b : Key) : Bool :=
  a.hash == b.hash && (a.sharesNameWith b || a.text == b.text)

/-- The key inside messages: its quoted name and its hash. -/
def shown (k : Key) : String :=
  Text.quote k.text ++ "#" ++ Text.hex8 k.hash

end Key

end MetaCache
