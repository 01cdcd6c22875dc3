import MetaCache.Descriptor.Basic
/-!
# Shadows

A shadow is the compiled form of a class's attributes: the class, the generation it had when it was
resolved, and one descriptor for each attribute, in order.

* `Shadow`: the compiled form.
* `Shadow.find?`, `Shadow.findInitArg?`: look-up of a descriptor by name.
-/

namespace MetaCache

/-- The compiled attributes of a class. -/
structure Shadow where
  cls : CellId
  className : String
  layout : Layout
  /-- The generation of the class when it was resolved. -/
  generation : Nat
  descriptors : List Descriptor := []
deriving DecidableEq, Repr

namespace Shadow

/-- The shadow with one more descriptor at its end. -/
def append (s : Shadow) (d : Descriptor) : Shadow :=
  { s with descriptors := s.descriptors ++ [d] }

/-- Whether `key` is the key of `name`, whose hash is `hash`. -/
def keyMatches (hash : UInt32) (name : String) (key : Key) : Bool :=
  key.hash == hash && key.text == name

/-- The position of the first descriptor whose slot is `name`. -/
def index? (nameHash : String → UInt32) (s : Shadow) (name : String) : Option Nat :=
  s.descriptors.findIdx? fun d => keyMatches (nameHash name) name d.slot

/-- The position of the first descriptor whose init-arg is `name`. -/
def initArgIndex? (nameHash : String → UInt32) (s : Shadow) (name : String) : Option Nat :=
  s.descriptors.findIdx? fun d => d.initArg.any (keyMatches (nameHash name) name)

/-- The first descriptor whose slot is `name`. -/
def find? (nameHash : String → UInt32) (s : Shadow) (name : String) : Option Descriptor :=
  s.descriptors.find? fun d => keyMatches (nameHash name) name d.slot

/-- The first descriptor whose init-arg is `name`. -/
def findInitArg? (nameHash : String → UInt32) (s : Shadow) (name : String) : Option Descriptor :=
  s.descriptors.find? fun d => d.initArg.any (keyMatches (nameHash name) name)

end Shadow

end MetaCache
