import MetaCache.World
/-!
# The host as the cache sees it

The cache reaches its host through a handful of operations. Method calls and calls of code may do
anything to the world, also to what is being compiled or looked up; the other questions are answered
from the world as it stands.

* `Host`: the operations.
* `AttributeQuery`, `InstanceQuery`: the methods asked of metaobjects.
* `Host.askList`, `Host.askOne`, `Host.askFlag`: queries, by what their reply must be.
-/

namespace MetaCache

/-- The methods asked of an attribute metaobject. -/
inductive AttributeQuery where
  | slots
  | hasInitArg
  | initArg
  | hasDefault
  | default
  | hasBuilder
  | builder
  | hasInitializer
  | initializer
deriving DecidableEq, Repr

namespace AttributeQuery

/-- The name of the method. -/
def method : AttributeQuery → String
  | slots => "slots"
  | hasInitArg => "has_init_arg"
  | initArg => "init_arg"
  | hasDefault => "has_default"
  | default => "default"
  | hasBuilder => "has_builder"
  | builder => "builder"
  | hasInitializer => "has_initializer"
  | initializer => "initializer"

/-- All of them, in order. -/
def all : List AttributeQuery :=
  [slots, hasInitArg, initArg, hasDefault, default, hasBuilder, builder, hasInitializer,
    initializer]

end AttributeQuery

/-- The methods asked of an instance metaobject. -/
inductive InstanceQuery where
  | className
  | allAttributes
deriving DecidableEq, Repr

namespace InstanceQuery

/-- The name of the method. -/
def method : InstanceQuery → String
  | className => "class_name"
  | allAttributes => "get_all_attributes"

/-- Both of them, in order. -/
def all : List InstanceQuery := [className, allAttributes]

end InstanceQuery

/-- What the cache asks of its host. The values of a reply belong to the cache; the values passed to
a call stay with the caller. -/
structure Host where
  /-- Calls a method of a value. -/
  callMethod : Value → String → ExceptT HostError Action (List Value)
  /-- Calls the code that a cell holds. -/
  callCode : CellId → List Value → ExceptT HostError Action Value
  /-- Whether a value derives from the class of that name. -/
  derivesFrom : World → Value → String → Bool
  /-- The class of that name. -/
  class? : World → String → Option CellId
  /-- The generation of a class. -/
  generation : World → CellId → Nat

/-- A failure of host code as a failure of the cache. -/
def Build.ofHost {α : Type} (x : ExceptT HostError Action α) : Build α :=
  ExceptT.adapt Error.host x

namespace Host

variable (host : Host)

/-- Asks for a list of values. -/
def askList (invocant : Value) (method : String) : Build (List Value) :=
  Build.ofHost (host.callMethod invocant method)

/-- Asks for one value; any other number of values is an error. A weak reference in the reply is
made strong. -/
def askOne (invocant : Value) (method : String) : Build Value := do
  match ← host.askList invocant method with
  | [v] => Action.withStore (·.upgrade v)
  | reply => Build.failReleasing (ownedByAll reply) (.arity method reply.length)

/-- Asks for the truth of one value. -/
def askFlag (invocant : Value) (method : String) : Build Bool := do
  let v ← host.askOne invocant method
  let answer ← Action.readStore (·.isTrue v)
  Action.release v.owned
  return answer

end Host

end MetaCache
