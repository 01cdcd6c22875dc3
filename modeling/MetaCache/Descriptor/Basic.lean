import MetaCache.Cell
/-!
# Attribute descriptors

A descriptor is the compiled form of an attribute metaobject: its slot, its init-arg, how a value is
obtained when none was given, and its initializer. It refers back to the metaobject it was compiled
from without keeping it alive.

* `Descriptor`, `DefaultStrategy`: the compiled form.
* `Descriptor.flags`: the flags that summarise it.
-/

namespace MetaCache

/-- The kinds of default. -/
inductive DefaultKind where
  | none
  | value
  | builder
  | container
deriving DecidableEq, Repr, Inhabited

/-- The name of a kind of default. -/
def DefaultKind.name : DefaultKind → String
  | none => "none"
  | value => "value"
  | builder => "builder"
  | container => "ref_gen"

/-- How an attribute obtains its value when none was given. -/
inductive DefaultStrategy where
  | none
  /-- A captured value: a plain one, or code to be called with the instance. -/
  | value (v : Value)
  /-- The method that computes the value. -/
  | builder (method : String)
  /-- A fresh, empty container. -/
  | container (kind : ContainerKind)
deriving DecidableEq, Repr, Inhabited

/-- The kind of a default. -/
def DefaultStrategy.kind : DefaultStrategy → DefaultKind
  | none => .none
  | value _ => .value
  | builder _ => .builder
  | container _ => .container

/-- A compiled attribute. -/
structure Descriptor where
  slot : Key
  initArg : Option Key
  default : DefaultStrategy
  initializer : Option CellId
  /-- The metaobject it was compiled from, weakly. -/
  origin : CellId
deriving DecidableEq, Repr

/-- A set of flags. -/
structure Flags where
  hasInitArg : Bool
  hasInitializer : Bool
  /-- The default is a captured value. -/
  capturesDefault : Bool
deriving DecidableEq, Repr

namespace Flags

/-- The flags as a number. -/
def bits (f : Flags) : Nat :=
  (if f.hasInitArg then 1 else 0) + (if f.hasInitializer then 2 else 0) +
    (if f.capturesDefault then 4 else 0)

/-- The names of the flags that are set, in order. -/
def names (f : Flags) : List String :=
  (if f.hasInitArg then ["HAS_INIT_ARG"] else []) ++
    (if f.hasInitializer then ["HAS_INITIALIZER"] else []) ++
    (if f.capturesDefault then ["DEFAULT_REFCOUNTED"] else [])

/-- The flags inside messages. -/
def shown (f : Flags) : String :=
  "AttrFlags(" ++ (if f.names.isEmpty then "0x0" else " | ".intercalate f.names) ++ ")"

end Flags

namespace Descriptor

/-- The flags of a descriptor. -/
def flags (d : Descriptor) : Flags where
  hasInitArg := d.initArg.isSome
  hasInitializer := d.initializer.isSome
  capturesDefault := d.default.kind == .value

/-- The captured default. -/
def defaultValue? (d : Descriptor) : Option Value :=
  match d.default with
  | .value v => some v
  | _ => none

/-- The builder method. -/
def builder? (d : Descriptor) : Option String :=
  match d.default with
  | .builder m => some m
  | _ => none

/-- The kind of container that the default produces. -/
def container? (d : Descriptor) : Option ContainerKind :=
  match d.default with
  | .container k => some k
  | _ => none

end Descriptor

end MetaCache
