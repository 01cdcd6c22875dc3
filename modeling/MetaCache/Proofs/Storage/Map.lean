import MetaCache.Proofs.Ownership.Update
import MetaCache.Proofs.Storage.Entries
/-!
# Instances as maps

What an operation on a slot comes to is said without a store: by the map of slots that the instance
is, and by which cells live. The storage does just that to the entries of the instance's hash, and
to nothing else that outlives the operation (`MetaCache.Proofs.Storage.Refinement`).

* `Storage.Operation`, `Storage.Answer`, `Storage.Operation.run`: the operations on a slot.
* `Storage.Operation.act`, `Heap.act`: what they come to on a map, and among instances.
-/

namespace MetaCache

namespace Storage

/-- What is done to a slot. -/
inductive Operation where
  | has
  | get
  | set (v : Value)
  | delete
  | weaken (policy : WeakenPolicy)

/-- What the caller is answered. -/
inductive Answer where
  | flag (b : Bool)
  | found (v? : Option Value)
  | stored (v : Value)
  | nothing
deriving DecidableEq

/-- The values handed out. -/
def Answer.values : Answer → List Value
  | found v? => v?.toList
  | stored v => [v]
  | _ => []

namespace Operation

/-- What the caller gives away. -/
def given : Operation → List Owned
  | set v => v.owned
  | _ => []

/-- The operation on a slot of an instance. -/
def run (op : Operation) (inst : Value) (slot : Key) (s : Store) : Except Error Answer × Store :=
  match op with
  | has => ((Storage.has inst slot s).1.map .flag, (Storage.has inst slot s).2)
  | get => ((Storage.get inst slot s).1.map .found, (Storage.get inst slot s).2)
  | set v => ((Storage.set inst slot v s).1.map .stored, (Storage.set inst slot v s).2)
  | delete => ((Storage.delete inst slot s).1.map .found, (Storage.delete inst slot s).2)
  | weaken policy =>
    ((Storage.weaken policy inst slot s).1.map fun _ => .nothing,
      (Storage.weaken policy inst slot s).2)

end Operation

end Storage

/-! ## Without a store -/

/-- What can be seen of cells from outside: whether they live, and the text of values in
messages. -/
structure Scene where
  alive : CellId → Bool
  text : Value → String

/-- What can be seen of the cells of a store. -/
def Store.scene (s : Store) : Scene := ⟨s.alive, s.valueText⟩

/-- The value as it is read: a weak reference as its cell while that lives, and as undefined
afterwards. -/
def Value.seen (alive : CellId → Bool) : Value → Value
  | .weak c => if alive c then .ref c else .undef
  | v => v

theorem Value.isWeak_seen (alive : CellId → Bool) (v : Value) : (v.seen alive).isWeak = false := by
  cases v with
  | weak c =>
    rw [seen]
    split <;> rfl
  | _ => rfl

namespace Storage.Operation

/-- The answer of an operation that does not look at the instance: weakening is switched off, or
refused. -/
def early? (name : String) : Operation → Option (Except Error Answer)
  | weaken .ignore => some (.ok .nothing)
  | weaken .reject => some (.error (.weakenRefused .hash name))
  | _ => none

/-- What weakening makes of the slot of that name: a strong reference is replaced by a weak one, a
slot without a reference that keeps anything alive stays as it is, and other values are refused. -/
def weakened (sc : Scene) (name : String) : Option Value → Except Error Answer × Option Value
  | some (.ref c) => (.ok .nothing, some (.weak c))
  | none => (.ok .nothing, none)
  | some .undef => (.ok .nothing, some .undef)
  | some (.weak c) => (.ok .nothing, some (.weak c))
  | some v => (.error (.mismatch (.weakenedNonReference name (sc.text v))), some v)

/-- What an operation makes of the slot of that name. -/
def act (sc : Scene) (name : String) : Operation → Option Value → Except Error Answer × Option Value
  | has, v? => (.ok (.flag v?.isSome), v?)
  | get, v? => (.ok (.found (v?.map (Value.seen sc.alive))), v?)
  | set v, _ => (.ok (.stored (v.seen sc.alive)), some (v.seen sc.alive))
  | delete, v? => (.ok (.found (v?.map (Value.seen sc.alive))), none)
  | weaken _, v? => weakened sc name v?

end Storage.Operation

/-- The instances, each with its slots. -/
abbrev Heap := CellId → Option Slots

namespace Heap

/-- The instance that a value refers to, strongly, with its slots. -/
def at? (H : Heap) (inst : Value) : Option (CellId × Slots) :=
  inst.strong?.bind fun c => (H c).map fun m => (c, m)

/-- The instances with those slots for one of them. -/
def assign (H : Heap) (c : CellId) (m : Slots) : Heap :=
  fun d => if d = c then some m else H d

/-- What an operation on a slot of an instance answers, and the instances after it. -/
def act (H : Heap) (sc : Scene) (inst : Value) (name : String) (op : Storage.Operation) :
    Except Error Storage.Answer × Heap :=
  match op.early? name with
  | some a => (a, H)
  | none =>
    match H.at? inst with
    | none => (.error (.mismatch (.notHashInstance .hash (sc.text inst))), H)
    | some (c, m) =>
      ((op.act sc name (m name)).1, H.assign c (m.assign name (op.act sc name (m name)).2))

end Heap

/-- The values that an operation hands out are strong. -/
theorem Heap.strong_of_act {H : Heap} {sc : Scene} {inst : Value} {name : String}
    {op : Storage.Operation} {a : Storage.Answer} (h : (H.act sc inst name op).1 = .ok a) :
    ∀ v ∈ a.values, v.isWeak = false := by
  have hseen : ∀ v? : Option Value, ∀ v ∈ (v?.map (Value.seen sc.alive)).toList,
      v.isWeak = false := by
    intro v? v hv
    obtain ⟨u, -, rfl⟩ := Option.map_eq_some_iff.1 (Option.mem_toList.1 hv)
    exact u.isWeak_seen _
  have hact : ∀ v?, (op.act sc name v?).1 = .ok a → ∀ v ∈ a.values, v.isWeak = false := by
    intro v? ha
    cases op with
    | has => cases ha; exact fun v hv => (List.not_mem_nil hv).elim
    | get | delete => cases ha; exact hseen v?
    | set u =>
      cases ha
      intro v hv
      rw [List.mem_singleton.1 hv]
      exact u.isWeak_seen _
    | weaken policy =>
      rw [Storage.Operation.act] at ha
      unfold Storage.Operation.weakened at ha
      split at ha <;> cases ha <;> exact fun v hv => (List.not_mem_nil hv).elim
  unfold Heap.act at h
  split at h
  · rename_i he
    unfold Storage.Operation.early? at he
    split at he <;> cases he <;> cases h
    exact fun v hv => (List.not_mem_nil hv).elim
  · split at h
    · cases h
    · exact hact _ h

end MetaCache
