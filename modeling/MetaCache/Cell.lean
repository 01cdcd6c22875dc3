import MetaCache.Key
import MetaCache.Script.Language
/-!
# Cells

A reference points at a cell: a referent (a container, a piece of code or an object) together with
one extension slot, in which a compiled structure can be recorded.

* `Referent`, `Cell`: what a reference points at.
* `Object`: the objects of the host, with their class name and the classes they derive from.
* `Record`: the content of an extension slot.
-/

namespace MetaCache

open Script (Routine)

/-- Identity of a payload, that is, of a structure that extension slots and handles share. -/
abbrev PayloadId := Nat

/-- A callable of the host, with the number of calls it has had. -/
structure Code where
  name : Option String
  routine : Routine
  runs : Nat := 0

/-- How a metaobject answers a method: with fixed values, with a failure, or by running host code,
which counts its calls. -/
inductive Behavior where
  | reply (values : List Value)
  | fail (message : String)
  | hook (routine : Routine) (runs : Nat)

/-- The behaviours of a metaobject, by method name; each method occurs once. -/
abbrev Behaviors := List (String × Behavior)

/-- The class of attribute metaobjects. -/
def attributeMetaClass : String := "mop::Attribute"

/-- The class of class metaobjects. -/
def classMetaClass : String := "mop::Class"

/-- The class of instance metaobjects. -/
def instanceMetaClass : String := "mop::Instance"

/-- An object of the host. -/
inductive Object where
  /-- An attribute metaobject. -/
  | attributeMeta (behaviors : Behaviors)
  /-- A class, with its generation and its attributes. -/
  | classMeta (name : String) (generation : Nat) (attributes : List Value)
  /-- An instance metaobject of the class of that name. -/
  | instanceMeta (className : String) (behaviors : Behaviors)
  /-- An object of a class of its own. -/
  | plain (className : String) (isa : List String)

namespace Object

/-- The name of the object's class. -/
def className : Object → String
  | attributeMeta _ => attributeMetaClass
  | classMeta .. => classMetaClass
  | instanceMeta .. => instanceMetaClass
  | plain c _ => c

/-- Whether the object derives from the class of that name. -/
def derivesFrom (o : Object) (name : String) : Bool :=
  match o with
  | plain _ isa => isa.contains name
  | _ => o.className == name

/-- The behaviours of a metaobject. -/
def behaviors : Object → Behaviors
  | attributeMeta bs | instanceMeta _ bs => bs
  | classMeta .. | plain .. => []

end Object

/-- What a cell holds. -/
inductive Referent where
  | scalar (value : Value)
  | array (items : List Value)
  /-- A hash; no two entries have keys that denote the same slot. -/
  | hash (entries : List (Key × Value))
  | code (code : Code)
  | object (object : Object)

/-- The kind of a referent, as messages show it. -/
def Referent.kindName : Referent → String
  | scalar _ => "SCALAR"
  | array _ => "ARRAY"
  | hash _ => "HASH"
  | code _ => "CODE"
  | object _ => "OBJECT"

/-- The content of an extension slot: a payload, the generation it was built under, and the class
whose generation that is, which the record does not keep alive. -/
structure Record where
  payload : PayloadId
  generation : Nat
  governor : CellId
deriving DecidableEq, Repr

/-- A referent with its extension slot. -/
structure Cell where
  referent : Referent
  extension : Option Record := none

end MetaCache
