import MetaCache.Error
import MetaCache.Store.Basic
/-!
# Instance storage

Under the hash layout an instance is a strong reference to a hash cell, and its slots are the
entries of the hash. A slot is absent, or unset (present and undefined), or holds a value. A stored
weak reference is read as its cell while that lives, and as undefined afterwards; no operation
answers a weak reference.

* `Storage.create`, `has`, `get`, `set`, `delete`, `weaken`: the operations.
* `Entries`: the entries of a hash, as an association list without repeated slots.
-/

namespace MetaCache

namespace Entries

/-- The value stored for a slot. -/
def get? (es : List (Key × Value)) (slot : Key) : Option Value :=
  (es.find? fun e => e.1.sameSlot slot).map Prod.snd

/-- The entries with `v` for `slot`. A slot that is there keeps its place and its key. -/
def put (slot : Key) (v : Value) : List (Key × Value) → List (Key × Value)
  | [] => [(slot, v)]
  | (k, old) :: rest =>
    if k.sameSlot slot then (k, v) :: rest else (k, old) :: put slot v rest

/-- The entries without `slot`. -/
def remove (slot : Key) : List (Key × Value) → List (Key × Value)
  | [] => []
  | (k, v) :: rest => if k.sameSlot slot then rest else (k, v) :: remove slot rest

/-- The entry for a slot. -/
def lookup? (es : List (Key × Value)) (slot : Key) : Option (Key × Value) :=
  es.find? fun e => e.1.sameSlot slot

end Entries

namespace Storage

/-- A new instance without slots. -/
def create (s : Store) : Value × Store :=
  let (c, s) := s.newCell (.hash [])
  (.ref c, s)

/-- The error for an instance that is no strong reference to a hash. -/
def notHash (s : Store) (inst : Value) : Error :=
  .mismatch (.notHashInstance .hash (s.valueText inst))

/-- Whether a slot is present. -/
def has (inst : Value) (slot : Key) (s : Store) : Except Error Bool × Store :=
  match s.hash? inst with
  | none => (.error (notHash s inst), s)
  | some (_, es) => (.ok (Entries.lookup? es slot).isSome, s)

/-- The value of a slot, which the caller then owns a copy of. -/
def get (inst : Value) (slot : Key) (s : Store) : Except Error (Option Value) × Store :=
  match s.hash? inst with
  | none => (.error (notHash s inst), s)
  | some (_, es) =>
    match Entries.get? es slot with
    | none => (.ok none, s)
    | some v =>
      let (v, s) := (s.retain v.owned).upgrade v
      (.ok (some v), s)

/-- Stores `v`, which is taken from the caller, and answers a copy of what was stored. A weak
reference is stored as a strong one. The value stored before is released last. -/
def set (inst : Value) (slot : Key) (v : Value) (s : Store) : Except Error Value × Store :=
  match s.hash? inst with
  | none => (.error (notHash s inst), s.release v.owned)
  | some (c, es) =>
    let (stored, s) := s.upgrade v
    let s := s.retain stored.owned
    match Entries.get? es slot with
    | none =>
      (.ok stored, (s.retain slot.owned).setReferent c (.hash (Entries.put slot stored es)))
    | some previous =>
      (.ok stored,
        (s.setReferent c (.hash (Entries.put slot stored es))).release previous.owned)

/-- Removes a slot and hands its value over. -/
def delete (inst : Value) (slot : Key) (s : Store) : Except Error (Option Value) × Store :=
  match s.hash? inst with
  | none => (.error (notHash s inst), s)
  | some (c, es) =>
    match Entries.lookup? es slot with
    | none => (.ok none, s)
    | some (key, v) =>
      let s := (s.setReferent c (.hash (Entries.remove slot es))).release key.owned
      let (v, s) := s.upgrade v
      (.ok (some v), s)

/-- Replaces a strong reference in a slot by a weak one, if the policy says so. Absent, unset and
already weak slots stay as they are; other values cannot be weakened. -/
def weaken (policy : WeakenPolicy) (inst : Value) (slot : Key) (s : Store) :
    Except Error Unit × Store :=
  match policy with
  | .ignore => (.ok (), s)
  | .reject => (.error (.weakenRefused .hash slot.text), s)
  | .weaken =>
    match s.hash? inst with
    | none => (.error (notHash s inst), s)
    | some (c, es) =>
      match Entries.get? es slot with
      | none | some .undef | some (.weak _) => (.ok (), s)
      | some (.ref target) =>
        let s := s.retain [.weakCell target]
        let s := s.setReferent c (.hash (Entries.put slot (.weak target) es))
        (.ok (), s.release [.cell target])
      | some other => (.error (.mismatch (.weakenedNonReference slot.text (s.valueText other))), s)

end Storage

end MetaCache
