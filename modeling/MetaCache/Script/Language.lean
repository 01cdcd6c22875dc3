import MetaCache.Config.Basic
import MetaCache.Value
/-!
# The language of host code

Host code is data: a routine is a list of steps followed by a failure or a reply. Steps act on the
host, the store and the cache, and may call further host code, so a routine can look things up in
the cache that is calling it.

* `Expr`: expressions that denote values.
* `Routine`: the body of a code reference or of a hook.
* `BehaviorExpr`: how a metaobject is to answer one method.
* `Step`: one action, with the name under which it is reported.
-/

namespace MetaCache.Script

/-- Which slot a step means: by a new key of that name, by the key in a variable, or by the slot of
the descriptor in a variable. -/
inductive SlotExpr where
  | named (name : String)
  | keyIn (var : String)
  | descriptorIn (var : String)
deriving Repr, Inhabited

/-- Which storage a step works with: that of the cache, that of a shadow, or one of its own with
the given policy. -/
inductive StorageExpr where
  | ofCache
  | ofShadow (var : String)
  | withPolicy (policy : WeakenPolicy)
deriving Repr, Inhabited

/-- How a key comes about: as the cache makes its keys, through the key table, or unshared. -/
inductive KeyOrigin where
  | cache
  | table
  | unshared
deriving DecidableEq, Repr, Inhabited

/-- Where the settings of a new cache come from. -/
inductive ConfigExpr where
  | settings (config : Config)
  | toml (text : String)
deriving Repr, Inhabited

/-- Which descriptor a step means: the one in a variable, or the one for a slot of the shadow in a
variable. -/
inductive DescriptorExpr where
  | inVariable (var : String)
  | ofShadow (var slot : String)
deriving Repr, Inhabited

mutual

/-- An expression that denotes a value. -/
inductive Expr where
  | undef
  | int (n : Int)
  | num (x : Binary64)
  | str (s : String)
  /-- The string `s`, `n` times over. -/
  | repeated (s : String) (n : Nat)
  /-- A copy of the value in a variable. -/
  | var (name : String)
  /-- The value moved out of a variable, which is unbound afterwards. -/
  | take (name : String)
  /-- A weak reference to the cell of a strong one. -/
  | weak (e : Expr)
  /-- A weak reference made strong, or undefined if its cell is gone. -/
  | upgraded (e : Expr)
  /-- An argument of the running host code. -/
  | arg (i : Nat)
  /-- The number of arguments of the running host code. -/
  | argCount
  /-- The class of that name. -/
  | classNamed (name : String)
  | hash (entries : List (String × Expr))
  | array (items : List Expr)
  | scalar (item : Expr)
  | code (routine : Routine)
  /-- An object of a class of its own, deriving from the classes listed. -/
  | object (className : String) (isa : List String)
  /-- An attribute metaobject. -/
  | attributeMeta (slot : String) (slots : Option (List String)) (initArg default : Option Expr)
      (builder : Option String) (initializer : Option Expr)
      (answers : List (String × BehaviorExpr))
  /-- An instance metaobject. -/
  | instanceMeta (className : String) (answers : List (String × BehaviorExpr))

/-- How a metaobject is to answer a method. -/
inductive BehaviorExpr where
  | reply (values : List Expr)
  | fail (message : String)
  | hook (routine : Routine)

/-- The body of host code. It runs its steps (only in its first `times` calls, if that is given),
and then fails, or answers the values of its reply. -/
inductive Routine where
  | mk (name : Option String) (steps : List Step) (times : Option Nat) (fail : Option String)
      (thrown : Option Expr) (reply : List Expr)

/-- One action of a script or of host code. The result of a step with a field `keep` is kept in the
variable named there. -/
inductive Step where
  | assign (keep : String) (value : Expr)
  | drop (var : String)
  | inspect (value : Expr)
  | equal (a b : Expr)
  | counts (var : String)
  | pointsTo (weak target : Expr)
  | downgrade (var keep : String)
  | dump (value : Expr) (depth : Nat)
  | debug (var : String)
  | same (a b : String)
  | call (code : Expr) (args : List Expr) (keep : Option String)
  | produce (kind : ContainerKind) (keep : Option String)
  | key (origin : KeyOrigin) (name : Expr) (keep : Option String)
  | shareKey (var : String) (keep : Option String)
  | compareKeys (a b : SlotExpr)
  | internMany (stem : String) (first count : Nat) (keep : Bool)
  | dropMany (stem : String) (first count : Nat)
  | purge
  | defineClass (name : String) (attributes : List Expr) (keep : Option String)
  | pushAttribute (cls attr : Expr)
  | setAttributes (cls : Expr) (attributes : List Expr)
  | bumpClass (cls : Expr)
  | bump (name : String)
  | removeClass (name : String)
  | resolveClass (name : String)
  | classGeneration (cls : Expr)
  | derivedFrom (value : Expr) (className : String)
  | defineMethod (name : String) (routine : Routine)
  | callMethod (invocant : Expr) (method : String)
  | setMethod (target : Expr) (method : String) (behavior : BehaviorExpr)
  | descriptor (attr : Expr) (keep : Option String)
  | descriptorFor (attr cls : Expr) (keep : Option String)
  | descriptorInfo (var : String)
  | initialValue (descriptor : DescriptorExpr) (inst : Expr) (keep : Option String)
  | shadow (inst : Expr) (keep : Option String)
  | shadowFor (inst : Expr) (keep : Option String)
  | newShadow (name : String) (cls : Expr) (generation : Nat) (keep : Option String)
  | append (shadow descriptor : String)
  | shadowInfo (var : String)
  | find (shadow name : String)
  | findInitArg (shadow name : String)
  | invalidate (target : Expr)
  | extension (target : Expr)
  | attachTag (target : Expr) (tag : String) (generation : Nat) (governor : Expr)
      (keep : Option String)
  | attachShared (target : Expr) (var : String) (generation : Nat) (governor : Expr)
      (keep : Option String)
  | detach (target : Expr) (keep : Option String)
  | record (var : String)
  | createStorage (keep : Option String)
  | storage (which : StorageExpr)
  | hasSlot (inst : Expr) (slot : SlotExpr) (which : StorageExpr)
  | getSlot (inst : Expr) (slot : SlotExpr) (keep : Option String) (which : StorageExpr)
  | setSlot (inst : Expr) (slot : SlotExpr) (value : Expr) (keep : Option String)
      (which : StorageExpr)
  | deleteSlot (inst : Expr) (slot : SlotExpr) (keep : Option String) (which : StorageExpr)
  | weakenSlot (inst : Expr) (slot : SlotExpr) (which : StorageExpr)
  | newCache (config : ConfigExpr) (classifier : Option (List (String × ContainerKind)))
  | config
  | stats

end

instance : Inhabited Expr := ⟨.undef⟩

/-- The routine that does nothing and replies nothing. -/
instance : Inhabited Routine := ⟨.mk none [] none none none []⟩

instance : Inhabited Step := ⟨.purge⟩

namespace Routine

def name : Routine → Option String
  | mk n _ _ _ _ _ => n

def steps : Routine → List Step
  | mk _ s _ _ _ _ => s

/-- The number of calls that run the steps, if it is limited. -/
def times : Routine → Option Nat
  | mk _ _ t _ _ _ => t

/-- The message with which the routine fails, if it does. -/
def fail : Routine → Option String
  | mk _ _ _ f _ _ => f

/-- The value thrown with the failure. -/
def thrown : Routine → Option Expr
  | mk _ _ _ _ t _ => t

def reply : Routine → List Expr
  | mk _ _ _ _ _ r => r

/-- Whether the call that follows `runs` earlier ones runs the steps. -/
def runsSteps (r : Routine) (runs : Nat) : Bool :=
  match r.times with
  | some n => runs < n
  | none => true

end Routine

/-- The name under which a step is reported. -/
def Step.name : Step → String
  | assign .. => "let"
  | drop .. => "drop"
  | inspect .. => "inspect"
  | equal .. => "eq"
  | counts .. => "counts"
  | pointsTo .. => "points_to"
  | downgrade .. => "downgrade"
  | dump .. => "dump"
  | debug .. => "debug"
  | same .. => "same"
  | call .. => "call"
  | produce .. => "produce"
  | key .cache .. => "key"
  | key .table .. => "intern"
  | key .unshared .. => "key_new"
  | shareKey .. => "key_share"
  | compareKeys .. => "key_cmp"
  | internMany .. => "intern_many"
  | dropMany .. => "drop_many"
  | purge => "purge"
  | defineClass .. => "define_class"
  | pushAttribute .. => "push_attribute"
  | setAttributes .. => "set_attributes"
  | bumpClass .. => "bump_class"
  | bump .. => "bump"
  | removeClass .. => "remove_class"
  | resolveClass .. => "resolve_class"
  | classGeneration .. => "class_generation"
  | derivedFrom .. => "derived_from"
  | defineMethod .. => "define_method"
  | callMethod .. => "call_method"
  | setMethod .. => "set_method"
  | descriptor .. => "descriptor"
  | descriptorFor .. => "descriptor_for"
  | descriptorInfo .. => "desc_info"
  | initialValue .. => "initial_value"
  | shadow .. => "shadow"
  | shadowFor .. => "shadow_for"
  | newShadow .. => "shadow_new"
  | append .. => "append"
  | shadowInfo .. => "shadow_info"
  | find .. => "find"
  | findInitArg .. => "find_init_arg"
  | invalidate .. => "invalidate"
  | extension .. => "extension"
  | attachTag .. | attachShared .. => "attach"
  | detach .. => "detach"
  | record .. => "record"
  | createStorage .. => "create_storage"
  | storage .. => "backend"
  | hasSlot .. => "has"
  | getSlot .. => "get"
  | setSlot .. => "set"
  | deleteSlot .. => "delete"
  | weakenSlot .. => "weaken"
  | newCache .. => "context"
  | config => "config"
  | stats => "stats"

end MetaCache.Script
