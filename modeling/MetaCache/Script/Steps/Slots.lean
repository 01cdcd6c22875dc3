import MetaCache.Descriptor.Compile
import MetaCache.Script.Steps.Keys
import MetaCache.Storage
/-!
# Steps on instance storage

* `policyOf`: the policy of the storage that a step works with.
* `askSlot`, `readSlot`, `writeSlot`, `removeSlot`, `weakenSlot`: the operations on slots.
-/

namespace MetaCache.Script

variable (args : List Value)

/-- The policy of the storage that a step works with. -/
def policyOf : StorageExpr → Action WeakenPolicy
  | .ofCache => return (← get).cache.config.weakenPolicy
  | .ofShadow var => do
    let _ ← Action.shadowIn var
    return (← get).cache.config.weakenPolicy
  | .withPolicy policy => return policy

/-- Makes an instance without slots. -/
def createStorage (target : Option String) : Action Answer := do
  keepValue target (← Action.withStore Storage.create)

/-- Tells the layout and the policy of a storage, and what it creates. -/
def describeStorage (which : StorageExpr) : Action Answer := do
  let policy ← policyOf which
  let v ← Action.withStore Storage.create
  let view ← look (·.dump 1 v)
  Action.release v.owned
  return .storage .hash policy view

/-- Runs `k` on an instance and a key. -/
def withSlot {α : Type} (inst : Expr) (slot : SlotExpr) (k : Value → Key → Action α) : Action α :=
  withValue args inst fun v => withKey slot (k v)

/-- Whether an instance has a slot. -/
def askSlot (inst : Expr) (slot : SlotExpr) : Action Answer :=
  withSlot args inst slot fun v key =>
    answeringStore (Storage.has v key) fun b => return .flag b

/-- Reads a slot. -/
def readSlot (inst : Expr) (slot : SlotExpr) (target : Option String) : Action Answer :=
  withSlot args inst slot fun v key => answeringStore (Storage.get v key) (keepSlotValue target)

/-- Writes a slot. -/
def writeSlot (inst : Expr) (slot : SlotExpr) (value : Expr) (target : Option String) :
    Action Answer :=
  withSlot args inst slot fun v key => do
    let content ← value.eval args
    answeringStore (Storage.set v key content) (keepValue target)

/-- Removes a slot. -/
def removeSlot (inst : Expr) (slot : SlotExpr) (target : Option String) : Action Answer :=
  withSlot args inst slot fun v key =>
    answeringStore (Storage.delete v key) (keepSlotValue target)

/-- Weakens a slot. -/
def weakenSlot (inst : Expr) (slot : SlotExpr) (which : StorageExpr) : Action Answer :=
  withSlot args inst slot fun v key => do
    let policy ← policyOf which
    answeringStore (Storage.weaken policy v key) fun _ => return .nothing

end MetaCache.Script
