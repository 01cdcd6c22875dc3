import MetaCache.Config.Basic
import MetaCache.Value
/-!
# Errors

The ways in which a lookup, a compilation or a storage operation fails. Values that an error shows
are given by their text; the value that host code throws is carried along, owned by the error.

* `Error`, `Error.message`.
* `Mismatch`: what was expected and not found.
* `HostError`: a failure of host code, passed on untouched.
-/

namespace MetaCache

/-- A failure of host code: its message and the value thrown with it. -/
structure HostError where
  message : String
  thrown : Value := .undef
deriving DecidableEq, Repr

/-- A value that is of no use where it was found; `got` is its text. -/
inductive Mismatch where
  /-- An attribute to be compiled is no strong reference. -/
  | attributeNotReference (got : String)
  | slotNotText (got : String)
  | initArgNotText (got : String)
  /-- A default is a reference to something that cannot be called. -/
  | defaultNotCallable (got : String)
  | builderNotText (got : String)
  | initializerNotCallable (got : String)
  /-- An instance to be compiled does not derive from the base class. -/
  | notInstanceMeta (got base : String)
  | classNameNotText (got : String)
  | unknownClass (name : String)
  /-- The object of a lookup is no strong reference. -/
  | notAttachable (got : String)
  /-- An instance is no strong reference to a hash. -/
  | notHashInstance (layout : Layout) (got : String)
  | weakenedNonReference (slot got : String)
deriving DecidableEq, Repr

/-- The text of a mismatch. -/
def Mismatch.message : Mismatch → String
  | attributeNotReference got => "attribute metaobject must be a reference, got " ++ got
  | slotNotText got => "slot name must be a string, got " ++ got
  | initArgNotText got => "init_arg must be a string, got " ++ got
  | defaultNotCallable got => "default value reference is not a callable: " ++ got
  | builderNotText got => "builder must be a method name, got " ++ got
  | initializerNotCallable got => "initializer is not a callable: " ++ got
  | notInstanceMeta got base => got ++ " is not a " ++ base ++ " metaobject"
  | classNameNotText got => "class name must be a string, got " ++ got
  | unknownClass name => "class " ++ Text.quote name ++ " cannot be resolved"
  | notAttachable got => "cannot attach to non-reference " ++ got
  | notHashInstance layout got =>
    "the " ++ layout.name ++ " layout expects a hash reference instance, got " ++ got
  | weakenedNonReference slot got =>
    "cannot weaken slot '" ++ slot ++ "' holding non-reference " ++ got

/-- A failure of the cache. -/
inductive Error where
  /-- An attribute has `found` slots instead of one. -/
  | slotCount (found : Nat)
  /-- A method that must answer one value answered `found`. -/
  | arity (method : String) (found : Nat)
  | mismatch (m : Mismatch)
  /-- Host code failed. -/
  | host (e : HostError)
  /-- The policy of the storage refuses to weaken slots. -/
  | weakenRefused (layout : Layout) (slot : String)
deriving DecidableEq, Repr

/-- The text of an error. -/
def Error.message : Error → String
  | slotCount found =>
    "Attribute reports " ++ toString found ++
      " slots; exactly one slot per attribute is supported"
  | arity method found =>
    "\x60" ++ method ++ "\x60 returned " ++ toString found ++ " values, expected 1"
  | mismatch m => "Type mismatch: " ++ m.message
  | host e => e.message
  | weakenRefused layout slot =>
    "The " ++ layout.name ++ " layout cannot weaken slot '" ++ slot ++ "'"

end MetaCache
