import MetaCache.Error
import MetaCache.Store.Basic
/-!
# Reports

What a script shows of its steps. A cell is shown by its kind and by the variables that hold a
strong reference to it, since its identity means nothing outside.

* `ValueView`, `Dump`, `DescriptorView`, `ShadowView`, `RecordView`: views of the things of the
  domain.
* `Answer`: the result of a step.
* `Entry`: what happened during a step, in order.
-/

namespace MetaCache.Script

/-- What is particular to a kind of cell. -/
inductive RefDetail where
  | container
  | code (name : Option String)
  | object (className : String)
deriving DecidableEq, Repr

/-- A cell, with the variables that hold a strong reference to it, in order. -/
structure RefView where
  kind : String
  holders : List String
  detail : RefDetail
deriving DecidableEq, Repr

/-- A value. -/
inductive ValueView where
  | undef
  | int (n : Int)
  | num (x : Binary64)
  | str (s : String)
  | ref (r : RefView)
  /-- A weak reference, to nothing if its cell is gone. -/
  | weak (r : Option RefView)
deriving DecidableEq, Repr

/-- A value with its contents, to a depth. -/
inductive Dump where
  | plain (v : ValueView)
  | scalar (item : Dump)
  | array (items : List Dump)
  | hash (entries : List (String × Dump))
  | classMeta (name : String) (generation : Nat) (attributes : List ValueView)

/-- A key: its name and its hash. -/
structure KeyView where
  name : String
  hash : UInt32
deriving DecidableEq, Repr

/-- A descriptor. -/
structure DescriptorView where
  slot : KeyView
  initArg : Option KeyView
  kind : DefaultKind
  value : Option ValueView
  builder : Option String
  container : Option ContainerKind
  initializer : Option RefView
  flags : Flags
  origin : Option RefView
deriving DecidableEq, Repr

/-- A shadow, by the names of its slots. -/
structure ShadowView where
  className : String
  generation : Nat
  slots : List String
deriving DecidableEq, Repr

/-- A payload. -/
inductive PayloadView where
  | tag (name : String)
  | descriptor (slot : String)
  | shadow (s : ShadowView)
deriving DecidableEq, Repr

/-- An extension record, with the number of handles on its payload. -/
structure RecordView where
  generation : Nat
  governor : Option RefView
  payload : PayloadView
  owners : Nat
deriving DecidableEq, Repr

/-- A value under every aspect. -/
structure Inspection where
  value : ValueView
  isDefined : Bool
  isTrue : Bool
  isReference : Bool
  isWeak : Bool
  isCallable : Bool
  text : Option String
  shown : String
  kind : Option String
  upgraded : ValueView
deriving DecidableEq, Repr

/-- A shadow with all its descriptors. -/
structure ShadowInfo where
  className : String
  cls : RefView
  layout : Layout
  generation : Nat
  descriptors : List DescriptorView
deriving DecidableEq, Repr

/-- The result of a step. -/
inductive Answer where
  | nothing
  | flag (b : Bool)
  | number (n : Nat)
  | numbers (ns : List Nat)
  | text (s : String)
  | value (v : ValueView)
  | values (vs : List ValueView)
  /-- The value of a slot, absent or there. -/
  | slotValue (v : Option ValueView)
  | reference (r : Option RefView)
  | dump (d : Dump)
  | inspection (i : Inspection)
  | counts (strong weak : Nat)
  | dead (b : Bool)
  | alive (b : Bool)
  | key (k : KeyView)
  /-- A key under its two forms of text. -/
  | keyTexts (shown plain : String)
  | keyComparison (same sameHash shared : Bool)
  | descriptor (d : DescriptorView)
  | shadow (s : ShadowView)
  | shadowInfo (s : ShadowInfo)
  /-- The result of a search in a shadow. -/
  | found (position : Option Nat) (d : Option DescriptorView)
  | extension (present : Bool) (r : Option RecordView)
  | record (r : Option RecordView)
  | storage (layout : Layout) (policy : WeakenPolicy) (created : Dump)
  | config (c : Config)
  | configText (c : Config) (text : String)
  | notCode
  /-- Host code that was called directly failed. -/
  | hostFailure (message : String) (thrown : ValueView)
  /-- The cache failed; `thrown` is the view of the value that a failure of host code carries. -/
  | failure (e : Error) (thrown : ValueView)
  /-- The text of a configuration was refused, with the reason if it is one worth telling. -/
  | badConfig (reason : Option String)

/-- What happened during a step. -/
inductive Entry where
  | event (e : Event)
  /-- A step inside host code came to its end. -/
  | finished (step : String) (answer : Answer)

end MetaCache.Script
