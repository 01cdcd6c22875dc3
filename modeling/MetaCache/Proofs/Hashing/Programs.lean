import MetaCache.Proofs.Hashing.Compilation
import MetaCache.Proofs.Hashing.Slots
import MetaCache.Proofs.Hashing.Variables
import MetaCache.Script.Steps.Keys
/-!
# Programs that use the cache

A program makes keys and keeps them in variables, compares them, asks the cache for structures,
searches them, and works on the slots of instances. What it is told has no hashes in it, and what it
does next may depend on all that it was told. The host that the cache asks is made of such programs,
too, which may use the cache again.

* `Client.Instruction`, `Client.Instruction.run`: what a program does at a time.
* `Client.Program`, `Client.Program.run`: programs.
* `Client`, `Client.host`: what a host answers by programs, to a depth.
* `Client.Program.accord_run`, `Client.steady_host`: programs do not see hashes.
-/

namespace MetaCache

open Script (Binding Session KeyOrigin)

/-! ## Programs -/

/-- A referent in which no key occurs. -/
abbrev Unkeyed := { r : Referent // r.keys = [] }

namespace Client

/-- What a program does with the cache, with its keys and with what is in the store. -/
inductive Instruction : Type → Type 1
  /-- Looks at all of the world that has nothing to do with hashes. -/
  | look {α : Type} (r : World → α) : Instruction α
  /-- Makes a key of a name and keeps it in a variable. -/
  | makeKey (origin : KeyOrigin) (name var : String) : Instruction SharedName
  /-- Keeps a copy of a key in another variable. -/
  | copyKey (source var : String) : Instruction SharedName
  /-- Keeps a copy of the key of a descriptor's slot. -/
  | slotKey (descriptor : PayloadId) (var : String) : Instruction SharedName
  /-- Drops a variable. -/
  | drop (var : String) : Instruction Bool
  /-- Asks whether two keys denote the same slot, and whether they share their name. -/
  | compare (a b : String) : Instruction (Bool × Bool)
  /-- Sweeps the key table. -/
  | purge : Instruction Unit
  /-- Counts the names in the key table that are alive. -/
  | liveCount : Instruction Nat
  /-- Looks an instance metaobject up. -/
  | shadowFor (inst : Value) : Instruction (Except Error PayloadId)
  /-- Looks an attribute metaobject up. -/
  | descriptorFor (attr : Value) (cls : CellId) : Instruction (Except Error PayloadId)
  | invalidate (target : Value) : Instruction Bool
  /-- Searches a shadow for a slot. -/
  | find (shadow : PayloadId) (name : String) : Instruction (Option Nat × Option Descriptor)
  /-- Searches a shadow for an init-arg. -/
  | findInitArg (shadow : PayloadId) (name : String) : Instruction (Option Nat × Option Descriptor)
  /-- Makes an instance without slots. -/
  | create : Instruction Value
  /-- Does something to a slot of an instance. The key is in a variable. -/
  | slot (op : Storage.Operation) (inst : Value) (var : String) :
    Instruction (Except Error Storage.Answer)
  | callMethod (invocant : Value) (method : String) : Instruction (Except HostError (List Value))
  | callCode (code : CellId) (args : List Value) : Instruction (Except HostError Value)
  | allocate (r : Unkeyed) : Instruction CellId
  | write (c : CellId) (r : Unkeyed) : Instruction Unit
  | newTag (name : String) : Instruction PayloadId
  | setExtension (c : CellId) (r : Option Record) : Instruction Unit
  | retain (os : List Owned) : Instruction Unit
  | release (os : List Owned) : Instruction Unit
  /-- Changes what the host knows by name. -/
  | register (f : Registry → Registry) : Instruction Unit

namespace Instruction

/-- A new key of a name. -/
def newKey : KeyOrigin → String → Action Key
  | .cache, name => modifyGet (World.key name)
  | .table, name => Script.interned name
  | .unshared, name => Script.freshKey name

/-- Keeps a key in a variable and answers its name. -/
def keepKey (var : String) (k : Key) : Action SharedName := do
  modify (World.bind var (.key k))
  return k.name

/-- Keeps a copy of a key in a variable. -/
def keepCopy (var : String) (k : Key) : Action SharedName := do
  Action.retain k.owned
  keepKey var k

/-- Keeps a copy of the key of a descriptor's slot. -/
def keepSlotKey (var : String) : Payload → Action SharedName
  | .descriptor d => keepCopy var d.slot
  | _ => Action.refuse "no descriptor"

/-- What a search in a shadow finds: a position, and the descriptor there. -/
def search (position : (String → UInt32) → Shadow → Option Nat)
    (found : (String → UInt32) → Shadow → Option Descriptor) :
    Payload → Action (Option Nat × Option Descriptor)
  | .shadow s => do
    let hash := (← get).cache.nameHash
    return (position hash s, (found hash s).map Descriptor.unhashed)
  | _ => Action.refuse "no shadow"

/-- Does what is asked for. -/
def run (host : Host) {α : Type} : Instruction α → Action α
  | look r => return r (← get).unhashed
  | makeKey origin name var => do keepKey var (← newKey origin name)
  | copyKey source var => do keepCopy var (← Action.keyIn source)
  | slotKey p var => do keepSlotKey var (← Action.payload p)
  | drop var => modifyGet (World.unbind var)
  | compare a b => do
    let k ← Action.keyIn a
    let l ← Action.keyIn b
    return (k.sameSlot l, k.sharesNameWith l)
  | purge => modify World.sweepKeys
  | liveCount => do
    let w ← get
    return w.cache.keys.liveCount w.store
  | shadowFor inst => (MetaCache.shadowFor host inst).run
  | descriptorFor attr cls => (MetaCache.descriptorFor host attr cls).run
  | invalidate target => modifyGet (World.invalidate target)
  | find p name => do
    search (fun hash s => s.index? hash name) (fun hash s => s.find? hash name) (← Action.payload p)
  | findInitArg p name => do
    search (fun hash s => s.initArgIndex? hash name) (fun hash s => s.findInitArg? hash name)
      (← Action.payload p)
  | create => Action.withStore Storage.create
  | slot op inst var => do
    let k ← Action.keyIn var
    Action.withStore (op.run inst k)
  | callMethod invocant method => (host.callMethod invocant method).run
  | callCode code args => (host.callCode code args).run
  | allocate r => Action.withStore (·.newCell r)
  | write c r => Action.onStore (·.setReferent c r)
  | newTag name => Action.withStore (·.newPayload (.tag name))
  | setExtension c r => Action.onStore (·.setExtension c r)
  | retain os => Action.retain os
  | release os => Action.release os
  | register f => modify fun w => { w with registry := f w.registry }

end Instruction

/-- A program: it ends with a result, or it goes on as it is answered. -/
inductive Program (β : Type) : Type 1
  | done (b : β)
  | andThen {α : Type} (i : Instruction α) (next : α → Program β)

/-- Runs a program. -/
def Program.run (host : Host) {β : Type} : Program β → Action β
  | done b => return b
  | andThen i next => do
    let x ← i.run host
    (next x).run host

end Client

open Client (Program)

/-- How a host answers. Methods and code are programs; the other questions are answered from what
has nothing to do with hashes. -/
structure Client where
  method : Value → String → Program (Except HostError (List Value))
  code : CellId → List Value → Program (Except HostError Value)
  derivesFrom : World → Value → String → Bool
  class? : World → String → Option CellId
  generation : World → CellId → Nat

namespace Client

/-- The host, whose programs are run in that way. -/
def hostBy (c : Client) (run : {β : Type} → Program β → Action β) : Host where
  callMethod v name := ExceptT.mk (run (c.method v name))
  callCode f args := ExceptT.mk (run (c.code f args))
  derivesFrom w := c.derivesFrom w.unhashed
  class? w := c.class? w.unhashed
  generation w := c.generation w.unhashed

/-- The host, whose programs may call it again, to a depth. -/
def host (c : Client) : Nat → Host
  | 0 => c.hostBy fun _ => Action.halt .exhausted
  | depth + 1 => c.hostBy fun p => p.run (c.host depth)

end Client

/-! ## Programs in matching worlds -/

variable {g : Hashings}

open MetaCache.Action (Accord)

namespace Client

namespace Instruction

theorem accord_newKey (origin : KeyOrigin) (name : String) :
    Accord g Key.Matches (newKey origin name) (newKey origin name) := by
  cases origin with
  | cache => exact .modifyGet fun _ _ hw => hw.key name
  | table => exact .modifyGet fun _ _ hw => hw.interned name
  | unshared => exact .modifyGet fun _ _ hw => hw.newName name

theorem accord_keepKey (var : String) {k l : Key} (h : k.Matches g l) :
    Accord g Equal (keepKey var k) (keepKey var l) := by
  refine (Action.Relates.modify fun w v hw => hw.bind var (Script.Binding.Matches.key h)).andThen
    fun _ _ _ => .pure ?_
  exact Key.Matches.name h

theorem accord_keepCopy (var : String) {k l : Key} (h : k.Matches g l) :
    Accord g Equal (keepCopy var k) (keepCopy var l) := by
  rw [keepCopy, keepCopy, Key.Matches.owned h]
  exact (Accord.retain _).andThen fun g' hg _ => accord_keepKey var (h.mono hg)

theorem accord_keepSlotKey (var : String) {p q : Payload} (h : p.Matches g q) :
    Accord g Equal (keepSlotKey var p) (keepSlotKey var q) := by
  have hunhashed := h.unhashed
  cases p with
  | descriptor d =>
    cases q with
    | descriptor e =>
      have hd : d.Matches g e := ⟨Payload.descriptor.inj hunhashed, h.left, h.right⟩
      exact accord_keepCopy var (Descriptor.Matches.slot hd)
    | _ => cases hunhashed
  | _ => cases q <;> first | exact .halt _ | cases hunhashed

theorem accord_search {position : (String → UInt32) → Shadow → Option Nat}
    {found : (String → UInt32) → Shadow → Option Descriptor}
    (hposition : ∀ {s t}, Shadow.Matches g s t → position g.left s = position g.right t)
    (hfound : ∀ {s t}, Shadow.Matches g s t → (found g.left s).map Descriptor.unhashed =
      (found g.right t).map Descriptor.unhashed) {p q : Payload} (h : p.Matches g q) :
    Accord g Equal (search position found p) (search position found q) := by
  have hunhashed := h.unhashed
  cases p with
  | shadow s =>
    cases q with
    | shadow t =>
      have hs : s.Matches g t := ⟨Payload.shadow.inj hunhashed, h.left, h.right⟩
      refine .get_bind fun w v hw => ?_
      dsimp only
      rw [hw.left, hw.right, hposition hs, hfound hs]
      exact .pure rfl
    | _ => cases hunhashed
  | _ => cases q <;> first | exact .halt _ | cases hunhashed

/-- Whatever a program does, it is told the same in matching worlds and leaves matching worlds. -/
theorem accord_run {host : Host} (hh : host.Steady) {α : Type} (i : Instruction α) :
    Accord g Equal (i.run host) (i.run host) := by
  cases i with
  | look r =>
    refine .get_bind fun w v hw => ?_
    rw [hw.unhashed]
    exact .pure rfl
  | makeKey origin name var =>
    exact (accord_newKey origin name).bind fun _ _ _ _ hk => accord_keepKey var hk
  | copyKey source var => exact (accord_keyIn source).bind fun _ _ _ _ hk => accord_keepCopy var hk
  | slotKey p var => exact (accord_payload p).bind fun _ _ _ _ hp => accord_keepSlotKey var hp
  | drop var => exact .change fun _ _ hw => hw.unbind var
  | compare a b =>
    refine (accord_keyIn a).bind fun g₁ _ k k' hk => (accord_keyIn b).bind fun g₂ h₂ l l' hl => ?_
    have hk := hk.mono h₂
    exact .pure (Prod.ext (Key.Matches.sameSlot_eq hk hl) (Key.Matches.sharesNameWith_eq hk hl))
  | purge => exact .modify fun _ _ hw => hw.sweepKeys
  | liveCount => exact .get_bind fun _ _ hw => .pure hw.store.liveCount_eq
  | shadowFor inst => exact Trial.Relates.equal_iff.1 (accord_shadowFor hh inst)
  | descriptorFor attr cls =>
    exact Trial.Relates.equal_iff.1 (accord_descriptorFor hh attr cls)
  | invalidate target => exact .change fun _ _ hw => hw.invalidate target
  | find p name =>
    exact (accord_payload p).bind fun _ _ _ _ hp =>
      accord_search (fun hs => hs.index?_eq name) (fun hs => hs.find?_eq name) hp
  | findInitArg p name =>
    exact (accord_payload p).bind fun _ _ _ _ hp =>
      accord_search (fun hs => hs.initArgIndex?_eq name) (fun hs => hs.findInitArg?_eq name) hp
  | create => exact .withStore fun hs => hs.create
  | slot op inst var =>
    exact (accord_keyIn var).bind fun _ _ _ _ hk => Accord.withStore fun hs => hs.run hk op inst
  | callMethod invocant method =>
    exact Trial.Relates.equal_iff.1 (hh.callMethod g invocant method)
  | callCode code args => exact Trial.Relates.equal_iff.1 (hh.callCode g code args)
  | allocate r =>
    have hnew : Accord g Equal (Action.withStore (·.newCell r.1))
        (Action.withStore (·.newCell r.1)) :=
      .withStore fun hs => hs.newCell (.of_keys_eq_nil r.2)
    exact hnew
  | write c r => exact .onStore fun hs => hs.setReferent c (.of_keys_eq_nil r.2)
  | newTag name =>
    have hnew : Accord g Equal (Action.withStore (·.newPayload (.tag name)))
        (Action.withStore (·.newPayload (.tag name))) :=
      .withStore fun hs => hs.newPayload (Payload.Matches.tag name)
    exact hnew
  | setExtension c r => exact .onStore fun hs => hs.setExtension c r
  | retain os => exact .retain os
  | release os => exact .release rfl
  | register f => exact .modify fun _ _ hw => { hw with registry := congrArg f hw.registry }

end Instruction

theorem Program.accord_run {host : Host} (hh : host.Steady) {β : Type} (p : Program β) :
    Accord g Equal (p.run host) (p.run host) := by
  induction p generalizing g with
  | done b => exact .pure rfl
  | andThen i next ih => exact (Instruction.accord_run hh i).andThen fun _ _ x => ih x

/-- A host that answers by programs does not see hashes. -/
theorem steady_host (c : Client) (depth : Nat) : (c.host depth).Steady := by
  have hby {run : {β : Type} → Program β → Action β}
      (hrun : ∀ {g : Hashings} {β : Type} (p : Program β), Accord g Equal (run p) (run p)) :
      (c.hostBy run).Steady :=
    { callMethod := fun _ v name => Trial.Relates.equal_iff.2 (hrun (c.method v name))
      callCode := fun _ f args => Trial.Relates.equal_iff.2 (hrun (c.code f args))
      derivesFrom := fun h x name => congrArg (c.derivesFrom · x name) h
      class? := fun h name => congrArg (c.class? · name) h
      generation := fun h d => congrArg (c.generation · d) h }
  induction depth with
  | zero => exact hby fun _ => .halt .exhausted
  | succ depth ih => exact hby (Program.accord_run ih)

end Client

end MetaCache
