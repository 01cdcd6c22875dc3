import MetaCache.Shadow.Basic
import MetaCache.Store.Table
/-!
# Ownership

Cells, shared names and payloads live as long as something owns them. `Owned` is one share of
ownership, or a structure held in place; each type of value says which shares it holds, in the
order in which they are released.

* `Payload`: what extension slots and handles share.
* `Owned`: a share of ownership.
* `Value.owned`, `Descriptor.owned`, `Cell.owned`, …: the shares that a value holds.
-/

namespace MetaCache

/-- A structure that extension slots and handles share. -/
inductive Payload where
  /-- Data of someone else's, known by a tag. -/
  | tag (name : String)
  | descriptor (d : Descriptor)
  | shadow (s : Shadow)

/-- One share of ownership. -/
inductive Owned where
  /-- A strong reference to a cell. -/
  | cell (c : CellId)
  /-- A weak reference to a cell. -/
  | weakCell (c : CellId)
  /-- A share of a name. -/
  | name (n : NameId)
  /-- A handle on a payload. -/
  | payload (p : PayloadId)
  /-- A weak handle on a payload. -/
  | weakPayload (p : PayloadId)
  /-- A structure held in place, with all that it owns. It is moved, never copied. -/
  | held (p : Payload)

/-- The shares a value holds. -/
def Value.owned : Value → List Owned
  | .ref c => [.cell c]
  | .weak c => [.weakCell c]
  | _ => []

/-- The shares that the values of a list hold. -/
def ownedByAll (vs : List Value) : List Owned :=
  vs.flatMap Value.owned

/-- The share a key holds. -/
def Key.owned (k : Key) : List Owned := [.name k.name.id]

/-- The shares a record holds. -/
def Record.owned (r : Record) : List Owned := [.payload r.payload, .weakCell r.governor]

/-- The shares a default holds. -/
def DefaultStrategy.owned : DefaultStrategy → List Owned
  | .value v => v.owned
  | _ => []

/-- The share an optional key holds. -/
def ownedByKey? : Option Key → List Owned
  | some k => k.owned
  | none => []

/-- The share an optional initializer holds. -/
def ownedByCell? : Option CellId → List Owned
  | some c => [.cell c]
  | none => []

/-- The shares a descriptor holds: slot, init-arg, default, initializer and, weakly, the metaobject
it was compiled from. -/
def Descriptor.owned (d : Descriptor) : List Owned :=
  d.slot.owned ++ ownedByKey? d.initArg ++ d.default.owned ++ ownedByCell? d.initializer ++
    [.weakCell d.origin]

/-- What a payload holds: a shadow its class and then its descriptors, in order. -/
def Payload.owned : Payload → List Owned
  | .tag _ => []
  | .descriptor d => d.owned
  | .shadow s => .cell s.cls :: s.descriptors.map fun d => .held (.descriptor d)

/-- The shares a behaviour holds. -/
def Behavior.owned : Behavior → List Owned
  | .reply vs => ownedByAll vs
  | _ => []

/-- The shares an object holds. -/
def Object.owned : Object → List Owned
  | .attributeMeta bs | .instanceMeta _ bs => bs.flatMap fun b => b.2.owned
  | .classMeta _ _ attrs => ownedByAll attrs
  | .plain .. => []

/-- The shares a referent holds. -/
def Referent.owned : Referent → List Owned
  | .scalar v => v.owned
  | .array vs => ownedByAll vs
  | .hash es => es.flatMap fun e => e.1.owned ++ e.2.owned
  | .code _ => []
  | .object o => o.owned

/-- The shares an extension slot holds. -/
def ownedByRecord? : Option Record → List Owned
  | some r => r.owned
  | none => []

/-- The shares a cell holds: those of its referent, then those of its extension slot. -/
def Cell.owned (c : Cell) : List Owned :=
  c.referent.owned ++ ownedByRecord? c.extension

/-- The number of releases that a payload can cause, itself included. -/
def Payload.weight : Payload → Nat
  | .tag _ => 1
  | .descriptor d => 1 + d.owned.length
  | .shadow s => 2 + sumOf (fun d => 1 + d.owned.length) s.descriptors

/-- The number of releases that a share can cause without any entry being freed. -/
def Owned.weight : Owned → Nat
  | .held p => p.weight
  | _ => 1

/-- The sum of the weights of several shares. -/
def Owned.total (os : List Owned) : Nat :=
  sumOf Owned.weight os

@[simp] theorem Owned.total_nil : Owned.total [] = 0 := rfl

@[simp] theorem Owned.total_cons (o : Owned) (os : List Owned) :
    Owned.total (o :: os) = o.weight + Owned.total os := by
  simp [Owned.total]

@[simp] theorem Owned.total_append (xs ys : List Owned) :
    Owned.total (xs ++ ys) = Owned.total xs + Owned.total ys := by
  simp [Owned.total]

/-- A descriptor holds plain shares only. -/
theorem Descriptor.total_owned (d : Descriptor) : Owned.total d.owned = d.owned.length := by
  have hd : ∀ s : DefaultStrategy, Owned.total s.owned = s.owned.length := by
    intro s
    cases s with
    | value v => cases v <;> rfl
    | _ => rfl
  have hk : ∀ k : Option Key, Owned.total (ownedByKey? k) = (ownedByKey? k).length := by
    intro k; cases k <;> rfl
  have hc : ∀ c : Option CellId, Owned.total (ownedByCell? c) = (ownedByCell? c).length := by
    intro c; cases c <;> rfl
  simp only [Descriptor.owned, Key.owned, Owned.total_append, Owned.total_cons, Owned.total_nil,
    hd, hk, hc, Owned.weight, List.length_append, List.length_cons, List.length_nil]

/-- What a payload holds weighs less than the payload. -/
theorem Payload.total_owned_lt (p : Payload) : Owned.total p.owned < p.weight := by
  cases p with
  | tag _ => exact Nat.one_pos
  | descriptor d =>
    simp only [Payload.owned, Payload.weight, Descriptor.total_owned]
    omega
  | shadow s =>
    have : ∀ ds : List Descriptor,
        Owned.total (ds.map fun d => .held (.descriptor d)) =
          sumOf (fun d => 1 + d.owned.length) ds := by
      intro ds
      induction ds with
      | nil => rfl
      | cons d rest ih => simp [ih, Owned.weight, Payload.weight]
    simp only [Payload.owned, Payload.weight, Owned.total_cons, this, Owned.weight]
    omega

end MetaCache
