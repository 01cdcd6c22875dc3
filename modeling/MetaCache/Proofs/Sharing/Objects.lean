import MetaCache.Descriptor.Compile
import MetaCache.Host.Registry
import MetaCache.Proofs.Sharing.Agreement
import MetaCache.Storage
/-!
# Instances and classes in twin worlds

The operations on the slots of instances answer the same in twin stores, under keys of the same
text, and so do the operations on classes and metaobjects in twin worlds.

* `Entries.Twin.put`, `Entries.Twin.remove`: entries of hashes.
* `Store.Twin.get`, `Store.Twin.set`, …: operations on slots.
* `World.Twin.defineClass`, `World.Twin.setBehavior`, …: operations on what the host knows by name.
-/

namespace MetaCache

variable {g : Namings}

/-! ## Slots -/

namespace Entries.Twin

variable {es fs : List (Key × Value)} {k l : Key}

theorem lookup? (h : Entries.Twin g es fs) (hk : k.Twin g l) :
    Option.Rel (fun e f => e.1.Twin g f.1 ∧ e.2 = f.2) (Entries.lookup? es k)
      (Entries.lookup? fs l) :=
  find?_of_forall₂ h fun _ _ hef => hef.1.sameSlot_eq hk

theorem get?_eq (h : Entries.Twin g es fs) (hk : k.Twin g l) :
    Entries.get? es k = Entries.get? fs l :=
  map_eq_of_rel (h.lookup? hk) fun _ _ h => h.2

theorem put (h : Entries.Twin g es fs) (hk : k.Twin g l) (v : Value) :
    Entries.Twin g (Entries.put k v es) (Entries.put l v fs) := by
  induction h with
  | nil => exact .cons ⟨hk, rfl⟩ .nil
  | cons hef hrest ih =>
    rw [Entries.put, Entries.put, hef.1.sameSlot_eq hk]
    split
    · exact .cons ⟨hef.1, rfl⟩ hrest
    · exact .cons hef ih

theorem remove (h : Entries.Twin g es fs) (hk : k.Twin g l) :
    Entries.Twin g (Entries.remove k es) (Entries.remove l fs) := by
  induction h with
  | nil => exact .nil
  | cons hef hrest ih =>
    rw [Entries.remove, Entries.remove, hef.1.sameSlot_eq hk]
    split
    · exact hrest
    · exact .cons hef ih

end Entries.Twin

namespace Store.Twin

variable {s t : Store} (h : s.Twin g t) {k l : Key} (hk : k.Twin g l)

include h

theorem create : (Storage.create s).1 = (Storage.create t).1 ∧
    (Storage.create s).2.Twin g (Storage.create t).2 := by
  obtain ⟨hc, hs⟩ := h.newCell (.hash .nil)
  exact ⟨congrArg Value.ref hc, hs⟩

theorem produce (kind : ContainerKind) : (kind.produce s).1 = (kind.produce t).1 ∧
    (kind.produce s).2.Twin g (kind.produce t).2 := by
  have hempty : kind.empty.Twin g kind.empty := by
    cases kind with
    | scalar => exact .scalar .undef
    | array => exact .array []
    | hash => exact .hash .nil
  obtain ⟨hc, hs⟩ := h.newCell hempty
  exact ⟨congrArg Value.ref hc, hs⟩

theorem notHash_eq (inst : Value) : Storage.notHash s inst = Storage.notHash t inst := by
  rw [Storage.notHash, Storage.notHash, h.valueText_eq]

include hk

theorem has (inst : Value) : (Storage.has inst k s).1 = (Storage.has inst l t).1 ∧
    (Storage.has inst k s).2.Twin g (Storage.has inst l t).2 := by
  rw [Storage.has, Storage.has]
  rcases rel_cases (h.hash? inst) with ⟨hs, ht⟩ | ⟨⟨c, es⟩, ⟨_, fs⟩, hs, ht, rfl, hes⟩
  · rw [hs, ht]
    exact ⟨congrArg Except.error (h.notHash_eq inst), h⟩
  · rw [hs, ht]
    refine ⟨congrArg Except.ok ?_, h⟩
    rcases rel_cases (hes.lookup? hk) with ⟨he, hf⟩ | ⟨_, _, he, hf, -⟩ <;> rw [he, hf]
    rfl

theorem get (inst : Value) : (Storage.get inst k s).1 = (Storage.get inst l t).1 ∧
    (Storage.get inst k s).2.Twin g (Storage.get inst l t).2 := by
  rw [Storage.get, Storage.get]
  rcases rel_cases (h.hash? inst) with ⟨hs, ht⟩ | ⟨⟨c, es⟩, ⟨_, fs⟩, hs, ht, rfl, hes⟩
  · rw [hs, ht]
    exact ⟨congrArg Except.error (h.notHash_eq inst), h⟩
  · simp only [hs, ht, hes.get?_eq hk]
    split
    · exact ⟨rfl, h⟩
    · obtain ⟨hv, hst⟩ := (h.retain (Owned.twins_value _)).upgrade _
      exact ⟨by rw [hv], hst⟩

theorem set (inst v : Value) : (Storage.set inst k v s).1 = (Storage.set inst l v t).1 ∧
    (Storage.set inst k v s).2.Twin g (Storage.set inst l v t).2 := by
  rw [Storage.set, Storage.set]
  rcases rel_cases (h.hash? inst) with ⟨hs, ht⟩ | ⟨⟨c, es⟩, ⟨_, fs⟩, hs, ht, rfl, hes⟩
  · rw [hs, ht]
    exact ⟨congrArg Except.error (h.notHash_eq inst), h.release (Owned.twins_value v)⟩
  · obtain ⟨hv, hst⟩ := h.upgrade v
    simp only [hs, ht, hes.get?_eq hk, hv]
    have hstored := hst.retain (Owned.twins_value (t.upgrade v).1)
    split
    · exact ⟨rfl, (hstored.retain (Owned.twins_key k l)).setReferent c (.hash (hes.put hk _))⟩
    · exact ⟨rfl, (hstored.setReferent c (.hash (hes.put hk _))).release (Owned.twins_value _)⟩

theorem delete (inst : Value) : (Storage.delete inst k s).1 = (Storage.delete inst l t).1 ∧
    (Storage.delete inst k s).2.Twin g (Storage.delete inst l t).2 := by
  rw [Storage.delete, Storage.delete]
  rcases rel_cases (h.hash? inst) with ⟨hs, ht⟩ | ⟨⟨c, es⟩, ⟨_, fs⟩, hs, ht, rfl, hes⟩
  · rw [hs, ht]
    exact ⟨congrArg Except.error (h.notHash_eq inst), h⟩
  · simp only [hs, ht]
    rcases rel_cases (hes.lookup? hk) with ⟨he, hf⟩ | ⟨⟨a, v⟩, ⟨b, _⟩, he, hf, -, rfl⟩
    · rw [he, hf]
      exact ⟨rfl, h⟩
    · rw [he, hf]
      obtain ⟨hv, hst⟩ := ((h.setReferent c (.hash (hes.remove hk))).release
        (Owned.twins_key a b)).upgrade v
      exact ⟨by dsimp only; rw [hv], hst⟩

theorem weaken (policy : WeakenPolicy) (inst : Value) :
    (Storage.weaken policy inst k s).1 = (Storage.weaken policy inst l t).1 ∧
      (Storage.weaken policy inst k s).2.Twin g (Storage.weaken policy inst l t).2 := by
  cases policy with
  | ignore => exact ⟨rfl, h⟩
  | reject => exact ⟨by rw [Storage.weaken, Storage.weaken, hk.text], h⟩
  | weaken =>
    rw [Storage.weaken, Storage.weaken]
    rcases rel_cases (h.hash? inst) with ⟨hs, ht⟩ | ⟨⟨c, es⟩, ⟨_, fs⟩, hs, ht, rfl, hes⟩
    · rw [hs, ht]
      exact ⟨congrArg Except.error (h.notHash_eq inst), h⟩
    · simp only [hs, ht, hes.get?_eq hk]
      split
      · exact ⟨rfl, h⟩
      · exact ⟨rfl, h⟩
      · exact ⟨rfl, h⟩
      · rename_i target _
        have hst := (h.retain (.cons (.weakCell target) .nil)).setReferent c
          (.hash (hes.put hk (.weak target)))
        exact ⟨rfl, hst.release (.cons (.cell target) .nil)⟩
      · exact ⟨by rw [hk.text, h.valueText_eq], h⟩

end Store.Twin

/-! ## Classes and metaobjects -/

theorem Behaviors.twins_ownedBy (bs : Behaviors) (method : String) :
    Owned.Twins g (bs.ownedBy method) (bs.ownedBy method) := by
  rw [Behaviors.ownedBy]
  cases bs.lookup method with
  | none => exact .nil
  | some b => exact Owned.twins_behavior b

namespace World.Twin

variable {w v : World} (h : w.Twin g v)

include h

theorem withStore {s t : Store} (hs : s.Twin g t) :
    World.Twin g { w with store := s } { v with store := t } :=
  { h with store := hs }

theorem onStore {f f' : Store → Store} (hf : ∀ s t, s.Twin g t → (f s).Twin g (f' t)) :
    (w.onStore f).Twin g (v.onStore f') :=
  h.withStore (hf _ _ h.store)

theorem release {os os' : List Owned} (ho : Owned.Twins g os os') :
    (w.onStore (·.release os)).Twin g (v.onStore (·.release os')) :=
  h.onStore fun _ _ hs => hs.release ho

theorem class?_eq (name : String) : w.class? name = v.class? name := by
  rw [World.class?, World.class?, h.registry]

theorem objectIn?_eq (c : CellId) : w.objectIn? c = v.objectIn? c := h.store.object?_eq (.ref c)

theorem generation_eq (c : CellId) : w.generation c = v.generation c := by
  rw [World.generation, World.generation, h.objectIn?_eq]

theorem modifyObject (c : CellId) (f : Object → Object) :
    (w.modifyObject c f).Twin g (v.modifyObject c f) := by
  rw [World.modifyObject, World.modifyObject, h.objectIn?_eq]
  split
  · exact h.onStore fun _ _ hs => hs.setReferent c (.object _)
  · exact h

theorem setAttributes (c : CellId) (attrs : List Value) :
    (w.setAttributes c attrs).Twin g (v.setAttributes c attrs) := by
  rw [World.setAttributes, World.setAttributes, h.objectIn?_eq]
  exact (h.modifyObject c _).release (Owned.twins_values _)

theorem pushAttribute (c : CellId) (attr : Value) :
    (w.pushAttribute c attr).Twin g (v.pushAttribute c attr) :=
  h.modifyObject c _

theorem bumpClass (c : CellId) :
    (w.bumpClass c).1 = (v.bumpClass c).1 ∧ (w.bumpClass c).2.Twin g (v.bumpClass c).2 :=
  ⟨(h.modifyObject c _).generation_eq c, h.modifyObject c _⟩

theorem defineClass (name : String) (attrs : List Value) :
    (w.defineClass name attrs).1 = (v.defineClass name attrs).1 ∧
      (w.defineClass name attrs).2.Twin g (v.defineClass name attrs).2 := by
  rw [World.defineClass, World.defineClass, h.class?_eq]
  cases v.class? name with
  | some c =>
    have hretained := h.onStore fun _ _ hs => hs.retain (.cons (.cell c) .nil)
    exact ⟨rfl, ((hretained.setAttributes c attrs).bumpClass c).2⟩
  | none =>
    obtain ⟨hc, hs⟩ := h.store.newCell (.object (.classMeta name 0 attrs))
    exact ⟨hc, { h with
      store := hs.retain (hc ▸ .cons (.cell _) .nil)
      registry := by dsimp only; rw [hc, h.registry] }⟩

theorem removeClass (name : String) : (w.removeClass name).1 = (v.removeClass name).1 ∧
    (w.removeClass name).2.Twin g (v.removeClass name).2 :=
  ⟨h.class?_eq name, { h with
    registry := by rw [World.removeClass, World.removeClass, h.registry] }⟩

theorem defineMethod (name : String) (c : CellId) :
    (w.defineMethod name c).Twin g (v.defineMethod name c) := by
  rw [World.defineMethod, World.defineMethod, h.registry]
  have hregistered (r : Registry) :
      World.Twin g { w with registry := r } { v with registry := r } := { h with registry := rfl }
  exact (hregistered _).release (Owned.twins_cell? _)

theorem countCall : w.countCall.Twin g v.countCall :=
  { h with registry := by rw [World.countCall, World.countCall, h.registry] }

theorem setBehavior (c : CellId) (method : String) (b : Behavior) :
    (w.setBehavior c method b).Twin g (v.setBehavior c method b) := by
  rw [World.setBehavior, World.setBehavior, h.objectIn?_eq]
  exact (h.modifyObject c _).release (Behaviors.twins_ownedBy _ method)

end World.Twin

end MetaCache
