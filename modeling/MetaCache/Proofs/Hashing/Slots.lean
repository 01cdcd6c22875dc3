import MetaCache.Proofs.Hashing.Matches
import MetaCache.Proofs.Storage.Map
/-!
# Slots in matching stores

The entries of an instance are found by comparing keys, hashes first. Among keys that fit this comes
to comparing names, so the operations on slots answer the same in matching stores and leave a match.

* `Entries.lookup?_unhashed`, `Entries.put_unhashed`, `Entries.remove_unhashed`: entries are found,
  put and removed as if there were no hashes.
* `Store.Matches.get`, `Store.Matches.set`, …: the operations on slots.
* `Store.Matches.run`: all of them.
-/

namespace MetaCache

variable {g : Hashings}

/-! ## Entries -/

section

variable {n : Naming} {hash : String → UInt32} {k l : Key} {es : List (Key × Value)}

/-- Keys without hashes denote the same slots. -/
theorem Key.sameSlot_unhashed (hk : n.Fits hash k) (hl : n.Fits hash l) :
    k.unhashed.sameSlot l.unhashed = k.sameSlot l := by
  have hk' : k.unhashed.Proper (fun _ => 0) n.label n.bound := ⟨hk.known, rfl⟩
  have hl' : l.unhashed.Proper (fun _ => 0) n.label n.bound := ⟨hl.known, rfl⟩
  rw [Bool.eq_iff_iff, sameSlot_iff hk' hl', sameSlot_iff hk hl]
  rfl

namespace Entries

variable (hk : n.Fits hash k) (hes : ∀ l ∈ keys es, n.Fits hash l)

include hk hes

theorem lookup?_unhashed : lookup? (unhashed es) k.unhashed =
    (lookup? es k).map fun e => (e.1.unhashed, e.2) := by
  induction es with
  | nil => rfl
  | cons e rest ih =>
    have hsame := Key.sameSlot_unhashed (hes e.1 List.mem_cons_self) hk
    rw [lookup?, unhashed, List.map_cons, List.find?_cons, hsame, lookup?, List.find?_cons]
    split
    · rfl
    · exact ih fun l hl => hes l (List.mem_cons_of_mem _ hl)

theorem put_unhashed (v : Value) :
    unhashed (put k v es) = put k.unhashed v (unhashed es) := by
  induction es with
  | nil => rfl
  | cons e rest ih =>
    have hsame := Key.sameSlot_unhashed (hes e.1 List.mem_cons_self) hk
    have hrest := ih fun l hl => hes l (List.mem_cons_of_mem _ hl)
    rw [put, show unhashed (e :: rest) = (e.1.unhashed, e.2) :: unhashed rest from rfl, put, hsame]
    split
    · rfl
    · exact congrArg ((e.1.unhashed, e.2) :: ·) hrest

theorem remove_unhashed : unhashed (remove k es) = remove k.unhashed (unhashed es) := by
  induction es with
  | nil => rfl
  | cons e rest ih =>
    have hsame := Key.sameSlot_unhashed (hes e.1 List.mem_cons_self) hk
    have hrest := ih fun l hl => hes l (List.mem_cons_of_mem _ hl)
    rw [remove, show unhashed (e :: rest) = (e.1.unhashed, e.2) :: unhashed rest from rfl, remove,
      hsame]
    split
    · rfl
    · exact congrArg ((e.1.unhashed, e.2) :: ·) hrest

omit hk hes

theorem mem_keys_put {v : Value} (h : l ∈ keys (put k v es)) : l = k ∨ l ∈ keys es := by
  induction es with
  | nil => exact .inl (List.mem_singleton.1 h)
  | cons e rest ih =>
    rw [put] at h
    split at h
    · exact .inr h
    · rcases List.mem_cons.1 h with rfl | h
      · exact .inr List.mem_cons_self
      · exact (ih h).imp id (List.mem_cons_of_mem _)

theorem mem_keys_remove (h : l ∈ keys (remove k es)) : l ∈ keys es := by
  induction es with
  | nil => exact h
  | cons e rest ih =>
    rw [remove] at h
    split at h
    · exact List.mem_cons_of_mem _ h
    · rcases List.mem_cons.1 h with rfl | h
      · exact List.mem_cons_self
      · exact List.mem_cons_of_mem _ (ih h)

end Entries

end

namespace Entries.Matches

variable {es fs : List (Key × Value)} {k l : Key} (h : Entries.Matches g es fs)
  (hk : k.Matches g l)

include h hk

theorem lookup? : (Entries.lookup? es k).map (fun e => (e.1.unhashed, e.2)) =
    (Entries.lookup? fs l).map fun e => (e.1.unhashed, e.2) := by
  rw [← lookup?_unhashed (hk.left k (by simp)) h.left, h.unhashed, hk.unhashed,
    lookup?_unhashed (hk.right l (by simp)) h.right]

theorem get?_eq : Entries.get? es k = Entries.get? fs l := by
  have hget (es : List (Key × Value)) (k : Key) : Entries.get? es k =
      ((Entries.lookup? es k).map fun e => (e.1.unhashed, e.2)).map Prod.snd := by
    rw [Option.map_map]
    rfl
  rw [hget, hget, lookup? h hk]

theorem put (v : Value) : Entries.Matches g (Entries.put k v es) (Entries.put l v fs) where
  unhashed := by
    rw [put_unhashed (hk.left k (by simp)) h.left, h.unhashed, hk.unhashed,
      put_unhashed (hk.right l (by simp)) h.right]
  left x hx := (mem_keys_put hx).elim (fun heq => heq ▸ hk.left k (by simp)) (h.left x)
  right x hx := (mem_keys_put hx).elim (fun heq => heq ▸ hk.right l (by simp)) (h.right x)

theorem remove : Entries.Matches g (Entries.remove k es) (Entries.remove l fs) where
  unhashed := by
    rw [remove_unhashed (hk.left k (by simp)) h.left, h.unhashed, hk.unhashed,
      remove_unhashed (hk.right l (by simp)) h.right]
  left x hx := h.left x (mem_keys_remove hx)
  right x hx := h.right x (mem_keys_remove hx)

end Entries.Matches

theorem Referent.Matches.hash {es fs : List (Key × Value)} (h : Entries.Matches g es fs) :
    Referent.Matches g (.hash es) (.hash fs) :=
  ⟨congrArg Referent.hash h.unhashed, h.left, h.right⟩

/-! ## Operations -/

namespace Store.Matches

variable {a b : KeyTable} {s t : Store} {k l : Key} (h : s.Matches g a b t) (hk : k.Matches g l)

include h

theorem valueText_eq (v : Value) : s.valueText v = t.valueText v := by
  rw [← s.valueText_unhashed, h.unhashed, t.valueText_unhashed]

/-- An instance is a hash in both stores or in none of them. -/
theorem hash?_cases (inst : Value) : (s.hash? inst = none ∧ t.hash? inst = none) ∨
    ∃ c es fs, s.hash? inst = some (c, es) ∧ t.hash? inst = some (c, fs) ∧
      Entries.Matches g es fs := by
  have hhash : (s.hash? inst).map (fun e => (e.1, Entries.unhashed e.2)) =
      (t.hash? inst).map fun e => (e.1, Entries.unhashed e.2) := by
    rw [← hash?_unhashed, h.unhashed, hash?_unhashed]
  rcases cases_of_map_eq hhash with hno | ⟨⟨c, es⟩, ⟨d, fs⟩, hs, ht, heq⟩
  · exact .inl hno
  · obtain ⟨rfl, hunhashed⟩ := Prod.mk.inj heq
    have hentries {u : Store} {es : List (Key × Value)} (hu : u.hash? inst = some (c, es)) :
        ∀ k ∈ Entries.keys es, u.Mentions k := fun k hmem =>
      .inl ⟨c, .hash es, (hash?_eq_some hu).2, hmem⟩
    exact .inr ⟨c, es, fs, hs, ht, hunhashed, fun k hmem => h.left.keys k (hentries hs k hmem),
      fun k hmem => h.right.keys k (hentries ht k hmem)⟩

theorem create : (Storage.create s).1 = (Storage.create t).1 ∧
    (Storage.create s).2.Matches g a b (Storage.create t).2 := by
  have hempty : Referent.Matches g (.hash []) (.hash []) := .of_keys_eq_nil rfl
  obtain ⟨hc, hst⟩ := h.newCell hempty
  exact ⟨congrArg Value.ref hc, hst⟩

theorem notHash_eq (inst : Value) : Storage.notHash s inst = Storage.notHash t inst := by
  rw [Storage.notHash, Storage.notHash, h.valueText_eq]

include hk

theorem has (inst : Value) : (Storage.has inst k s).1 = (Storage.has inst l t).1 ∧
    (Storage.has inst k s).2.Matches g a b (Storage.has inst l t).2 := by
  rw [Storage.has, Storage.has]
  rcases h.hash?_cases inst with ⟨hs, ht⟩ | ⟨c, es, fs, hs, ht, hes⟩
  · rw [hs, ht]
    exact ⟨congrArg Except.error (h.notHash_eq inst), h⟩
  · rw [hs, ht]
    have hsome := congrArg Option.isSome (Entries.Matches.lookup? hes hk)
    rw [Option.isSome_map, Option.isSome_map] at hsome
    exact ⟨congrArg Except.ok hsome, h⟩

theorem get (inst : Value) : (Storage.get inst k s).1 = (Storage.get inst l t).1 ∧
    (Storage.get inst k s).2.Matches g a b (Storage.get inst l t).2 := by
  rw [Storage.get, Storage.get]
  rcases h.hash?_cases inst with ⟨hs, ht⟩ | ⟨c, es, fs, hs, ht, hes⟩
  · rw [hs, ht]
    exact ⟨congrArg Except.error (h.notHash_eq inst), h⟩
  · simp only [hs, ht, Entries.Matches.get?_eq hes hk]
    split
    · exact ⟨rfl, h⟩
    · obtain ⟨hv, hst⟩ := (h.retain (Value.owned _)).upgrade _
      exact ⟨by rw [hv], hst⟩

theorem set (inst v : Value) : (Storage.set inst k v s).1 = (Storage.set inst l v t).1 ∧
    (Storage.set inst k v s).2.Matches g a b (Storage.set inst l v t).2 := by
  rw [Storage.set, Storage.set]
  rcases h.hash?_cases inst with ⟨hs, ht⟩ | ⟨c, es, fs, hs, ht, hes⟩
  · rw [hs, ht]
    exact ⟨congrArg Except.error (h.notHash_eq inst), h.release rfl⟩
  · obtain ⟨hv, hst⟩ := h.upgrade v
    simp only [hs, ht, Entries.Matches.get?_eq hes hk, hv]
    have hstored := hst.retain (t.upgrade v).1.owned
    have hput := Referent.Matches.hash (Entries.Matches.put hes hk (t.upgrade v).1)
    split
    · rw [hk.owned]
      exact ⟨rfl, (hstored.retain l.owned).setReferent c hput⟩
    · exact ⟨rfl, (hstored.setReferent c hput).release rfl⟩

theorem delete (inst : Value) : (Storage.delete inst k s).1 = (Storage.delete inst l t).1 ∧
    (Storage.delete inst k s).2.Matches g a b (Storage.delete inst l t).2 := by
  rw [Storage.delete, Storage.delete]
  rcases h.hash?_cases inst with ⟨hs, ht⟩ | ⟨c, es, fs, hs, ht, hes⟩
  · rw [hs, ht]
    exact ⟨congrArg Except.error (h.notHash_eq inst), h⟩
  · simp only [hs, ht]
    have hremoved := Referent.Matches.hash (Entries.Matches.remove hes hk)
    rcases cases_of_map_eq (Entries.Matches.lookup? hes hk) with
      ⟨hl, hr⟩ | ⟨⟨x, v⟩, ⟨y, u⟩, hl, hr, heq⟩
    · rw [hl, hr]
      exact ⟨rfl, h⟩
    · obtain ⟨hkey, rfl⟩ := Prod.mk.inj heq
      have howned : x.owned.map Owned.unhashed = y.owned.map Owned.unhashed := by
        rw [← x.owned_unhashed, ← y.owned_unhashed, hkey]
      rw [hl, hr]
      obtain ⟨hv, hst⟩ := ((h.setReferent c hremoved).release howned).upgrade v
      exact ⟨by dsimp only; rw [hv], hst⟩

theorem weaken (policy : WeakenPolicy) (inst : Value) :
    (Storage.weaken policy inst k s).1 = (Storage.weaken policy inst l t).1 ∧
      (Storage.weaken policy inst k s).2.Matches g a b (Storage.weaken policy inst l t).2 := by
  cases policy with
  | ignore => exact ⟨rfl, h⟩
  | reject => exact ⟨by rw [Storage.weaken, Storage.weaken, hk.text], h⟩
  | weaken =>
    rw [Storage.weaken, Storage.weaken]
    rcases h.hash?_cases inst with ⟨hs, ht⟩ | ⟨c, es, fs, hs, ht, hes⟩
    · rw [hs, ht]
      exact ⟨congrArg Except.error (h.notHash_eq inst), h⟩
    · simp only [hs, ht, Entries.Matches.get?_eq hes hk]
      split
      · exact ⟨rfl, h⟩
      · exact ⟨rfl, h⟩
      · exact ⟨rfl, h⟩
      · rename_i target _
        have hput := Referent.Matches.hash (Entries.Matches.put hes hk (.weak target))
        exact ⟨rfl, ((h.retain [.weakCell target]).setReferent c hput).release rfl⟩
      · exact ⟨by rw [hk.text, h.valueText_eq], h⟩

/-- An operation on a slot answers the same and leaves matching stores. -/
theorem run (op : Storage.Operation) (inst : Value) :
    (op.run inst k s).1 = (op.run inst l t).1 ∧
      (op.run inst k s).2.Matches g a b (op.run inst l t).2 := by
  cases op with
  | has => exact ⟨congrArg (Except.map _) (h.has hk inst).1, (h.has hk inst).2⟩
  | get => exact ⟨congrArg (Except.map _) (h.get hk inst).1, (h.get hk inst).2⟩
  | set v => exact ⟨congrArg (Except.map _) (h.set hk inst v).1, (h.set hk inst v).2⟩
  | delete => exact ⟨congrArg (Except.map _) (h.delete hk inst).1, (h.delete hk inst).2⟩
  | weaken policy =>
    exact ⟨congrArg (Except.map _) (h.weaken hk policy inst).1, (h.weaken hk policy inst).2⟩

end Store.Matches

end MetaCache
