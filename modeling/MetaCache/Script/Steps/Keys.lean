import MetaCache.Script.Result
/-!
# Steps on keys

* `slotKey`: the key that an expression for a slot means.
* `makeKey`, `shareKey`, `compareKeys`: single keys.
* `internMany`: many keys in a row, by which the key table comes to be swept.
-/

namespace MetaCache.Script

variable (args : List Value)

/-- Runs `k` on the key that an expression for a slot means. -/
def withKey {α : Type} (e : SlotExpr) (k : Key → Action α) : Action α := do
  let key ← match e with
    | .named name => freshKey name
    | .keyIn var => do
      let key ← Action.keyIn var
      Action.retain key.owned
      pure key
    | .descriptorIn var => do
      let (_, d) ← Action.descriptorIn var
      Action.retain d.slot.owned
      pure d.slot
  let a ← k key
  Action.release key.owned
  return a

/-- The key of a name from the key table. -/
def interned (name : String) : Action Key :=
  modifyGet fun w =>
    let (k, keys, store) := w.cache.keys.intern w.cache.nameHash name w.store
    (k, { w with cache := { w.cache with keys }, store })

/-- Makes a key. -/
def makeKey (origin : KeyOrigin) (name : Expr) (target : Option String) : Action Answer :=
  withValue args name fun v => do
    match v.text? with
    | none => Action.refuse "a key without a name"
    | some text =>
      let key ← match origin with
        | .cache => modifyGet (World.key text)
        | .table => interned text
        | .unshared => freshKey text
      keepKey target key

/-- Makes a key from the shared name of another one. -/
def shareKey (var : String) (target : Option String) : Action Answer := do
  let key ← Action.keyIn var
  Action.retain key.owned
  keepKey target { key with hash := (← get).cache.nameHash key.text }

/-- Compares two keys. -/
def compareKeys (a b : SlotExpr) : Action Answer :=
  withKey a fun x => withKey b fun y =>
    return .keyComparison (x.sameSlot y) (x.hash == y.hash) (x.sharesNameWith y)

/-- The names `stem` followed by the numbers `first`, `first + 1`, …, `count` of them. -/
def numbered (stem : String) (first count : Nat) : List String :=
  (List.range count).map fun i => stem ++ toString (first + i)

/-- Asks the key table for names in a row and reads, after each, how many entries it has. Each key
is kept in the variable of its name, or given back. -/
def internEach (keep : Bool) : List String → Action (List Nat)
  | [] => return []
  | name :: rest => do
    let key ← interned name
    let tracked := (← get).cache.keys.tracked
    Action.keep (if keep then some name else none) (.key key)
    return tracked :: (← internEach keep rest)

/-- Removes variables. -/
def dropEach : List String → Action Unit
  | [] => return ()
  | name :: rest => do
    let _ ← modifyGet (World.unbind name)
    dropEach rest

/-- Asks the key table for many names in a row. -/
def internMany (stem : String) (first count : Nat) (keep : Bool) : Action Answer :=
  return .numbers (← internEach keep (numbered stem first count))

/-- Removes many variables. -/
def dropMany (stem : String) (first count : Nat) : Action Answer := do
  dropEach (numbered stem first count)
  return .nothing

/-- Sweeps the key table. -/
def purge : Action Answer := do
  modify World.sweepKeys
  return .nothing

end MetaCache.Script
