import MetaCache.Shadow.Compile
/-!
# Lookups

A compiled structure is kept in the extension slot of the object it was compiled from, under the
generation that its class had. A lookup takes what it finds there if it is of the right kind and its
class is still alive and of that generation; anything else in the slot is discarded, and the
structure is compiled anew.

An object has one extension slot. Looking it up both as an attribute and as an instance makes each
lookup discard what the other one left.

* `shadowFor`, `descriptorFor`: the lookups.
* `invalidate`: discards what is in an extension slot.
-/

namespace MetaCache

/-- What a lookup wants. -/
inductive Wanted where
  | descriptor
  | shadow
deriving DecidableEq, Repr

/-- Whether a payload is what a lookup wants. -/
def Wanted.accepts : Wanted → Payload → Bool
  | .descriptor, .descriptor _ => true
  | .shadow, .shadow _ => true
  | _, _ => false

namespace World

variable (host : Host)

/-- Whether a record answers a lookup: its payload is of the kind wanted, and its class is alive and
of the generation recorded. -/
def isFresh (wanted : Wanted) (r : Record) (w : World) : Bool :=
  (w.store.payload? r.payload).any wanted.accepts &&
    w.store.alive r.governor && host.generation w r.governor == r.generation

/-- Empties the extension slot of `target`, which holds `r`, and gives the record back. The key
table is swept afterwards, so that names used by `r` alone leave it. -/
def discard (target : CellId) (r : Record) (n : Note) (w : World) : World :=
  let w := w.onStore fun s => (s.note n).setExtension target none
  let w := w.count fun st => { st with invalidations := st.invalidations + 1 }
  (w.onStore (·.release r.owned)).sweepKeys

/-- What the extension slot of `target` answers to a lookup; the caller gets a handle of its own.
What is no answer is discarded. -/
def cached? (wanted : Wanted) (target : CellId) (w : World) : Option PayloadId × World :=
  match w.store.extension? target with
  | none => (none, w)
  | some r =>
    let text := w.store.cellText target
    if w.isFresh host wanted r then
      let w := w.count fun st => { st with hits := st.hits + 1 }
      (some r.payload,
        w.onStore fun s => (s.retain [.payload r.payload]).note (.cacheHit text r.generation))
    else
      (none, w.discard target r (.discardedStale text r.generation))

/-- Puts a compiled structure into the extension slot of `target`, under a generation of `governor`.
The caller gets a handle of its own. What was in the slot is released last. -/
def publish (target : CellId) (p : Payload) (generation : Nat) (governor : CellId) (w : World) :
    PayloadId × World :=
  let (id, s) := w.store.newPayload p
  let s := s.retain [.payload id, .weakCell governor]
  let previous := s.extension? target
  let s := s.setExtension target (some { payload := id, generation, governor })
  let s := s.note (.attached (s.cellText target) generation)
  let w := { w with store := s.release (ownedByRecord? previous) }
  (id, w.count fun st => { st with builds := st.builds + 1 })

/-- Discards what is in the extension slot of the cell that a value refers to, and tells whether
there was anything. -/
def invalidate (target : Value) (w : World) : Bool × World :=
  match target.strong? with
  | none => (false, w)
  | some c =>
    match w.store.extension? c with
    | none => (false, w)
    | some r => (true, w.discard c r (.invalidated (w.store.cellText c)))

end World

/-- The cell whose extension slot serves a lookup of `v`. -/
def lookupTarget (v : Value) : Build CellId := do
  match v with
  | .ref c => return c
  | _ =>
    let got ← Action.readStore (·.valueText v)
    throw (.mismatch (.notAttachable got))

variable (host : Host)

/-- Answers a lookup of `v` from the extension slot of its cell, or else by `build`. -/
def cachedOr (wanted : Wanted) (v : Value) (build : CellId → Build PayloadId) :
    Build PayloadId := do
  let target ← lookupTarget v
  match ← modifyGet (World.cached? host wanted target) with
  | some p => return p
  | none => build target

/-- Compiles an instance metaobject and puts the shadow into the extension slot of `target`, under
the generation that its class had when it was resolved. -/
def buildShadow (inst : Value) (target : CellId) : Build PayloadId := do
  let s ← Shadow.compile host inst
  modifyGet (World.publish target (.shadow s) s.generation s.cls)

/-- Compiles an attribute metaobject and puts the descriptor into the extension slot of `target`.
The generation of `cls` is read before the attribute is compiled, so that a redefinition meanwhile
leaves the descriptor stale. -/
def buildDescriptor (attr : Value) (cls : CellId) (target : CellId) : Build PayloadId := do
  let generation := host.generation (← get) cls
  let d ← Descriptor.compile host attr
  modifyGet (World.publish target (.descriptor d) generation cls)

/-- The shadow of an instance metaobject, governed by the class it was compiled for. -/
def shadowFor (inst : Value) : Build PayloadId :=
  cachedOr host .shadow inst (buildShadow host inst)

/-- The descriptor of an attribute metaobject, governed by `cls`. -/
def descriptorFor (attr : Value) (cls : CellId) : Build PayloadId :=
  cachedOr host .descriptor attr (buildDescriptor host attr cls)

end MetaCache
