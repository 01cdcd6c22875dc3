import MetaCache.Proofs.Custody.Slots
/-!
# Operations as runs

Each operation of the store and of the storage comes to a few acts in a row. So what holds of all
runs of acts holds of all runs of operations, and of the moments inside of them.

* `Estate.Leads`: acts that lead from one estate to another, and the slots they may name.
* `Estate.leads_release`, `Estate.leads_upgrade`: shares given back, and weak references made
  strong.
* `Estate.leads_operation`: the operations on slots.
-/

namespace MetaCache

namespace Entries

variable {slot : Key} {es : List (Key × Value)}

/-- What the entries of a hash hold. -/
theorem holding_cons (p : Key × Value) (es : List (Key × Value)) :
    holding (Referent.hash (p :: es)).owned =
      holding p.1.owned + holding p.2.owned + holding (Referent.hash es).owned := by
  simp only [Referent.owned, List.flatMap_cons, holding_append]

/-- A value that takes the place of another one. -/
theorem holding_put_some {old : Value} (h : get? es slot = some old) (v : Value) (x : Share) :
    holding (Referent.hash (put slot v es)).owned x + holding old.owned x =
      holding (Referent.hash es).owned x + holding v.owned x := by
  induction es with
  | nil => cases h
  | cons p rest ih =>
    obtain ⟨k, u⟩ := p
    rw [get?, List.find?_cons] at h
    rw [put, holding_cons]
    split
    · rename_i hk
      rw [hk] at h
      cases h
      rw [holding_cons]
      simp only [Pi.add_apply]
      omega
    · rename_i hk
      rw [Bool.of_not_eq_true hk] at h
      have := ih h
      rw [holding_cons]
      simp only [Pi.add_apply]
      omega

/-- A value under a key that is new. -/
theorem holding_put_none (h : get? es slot = none) (v : Value) (x : Share) :
    holding (Referent.hash (put slot v es)).owned x =
      holding (Referent.hash es).owned x + (holding slot.owned x + holding v.owned x) := by
  induction es with
  | nil =>
    rw [put, holding_cons]
    simp only [Pi.add_apply]
    omega
  | cons p rest ih =>
    obtain ⟨k, u⟩ := p
    rw [get?, List.find?_cons] at h
    rw [put, holding_cons]
    split
    · rename_i hk
      rw [hk] at h
      cases h
    · rename_i hk
      rw [Bool.of_not_eq_true hk] at h
      have := ih h
      rw [holding_cons]
      simp only [Pi.add_apply]
      omega

/-- A key and a value that are removed. -/
theorem holding_remove {p : Key × Value} (h : lookup? es slot = some p) (x : Share) :
    holding (Referent.hash (remove slot es)).owned x +
        (holding p.1.owned x + holding p.2.owned x) = holding (Referent.hash es).owned x := by
  induction es with
  | nil => cases h
  | cons q rest ih =>
    obtain ⟨k, u⟩ := q
    rw [lookup?, List.find?_cons] at h
    rw [remove, holding_cons]
    split
    · rename_i hk
      rw [hk] at h
      cases h
      simp only [Pi.add_apply]
      omega
    · rename_i hk
      rw [Bool.of_not_eq_true hk] at h
      have := ih h
      rw [holding_cons]
      simp only [Pi.add_apply]
      omega

theorem mem_of_get? {v : Value} (h : get? es slot = some v) : ∃ k, (k, v) ∈ es := by
  obtain ⟨p, hp, rfl⟩ := Option.map_eq_some_iff.1 h
  exact ⟨p.1, List.mem_of_find?_eq_some hp⟩

end Entries

/-- What the answer of an operation on a slot owns. -/
def Storage.handedOut : Except Error Storage.Answer → List Owned
  | .ok a => ownedByAll a.values
  | .error _ => []

theorem Store.Covers.present_of_held {s : Store} {f : Holding} {v : Value}
    (h : s.Covers (holding v.owned + f)) : ∀ o ∈ v.owned, s.present o := by
  intro o ho
  cases v with
  | ref c =>
    rw [List.mem_singleton.1 ho]
    refine h.alive (Nat.add_pos_right _ (Nat.add_pos_left ?_ _))
    exact holding_pos rfl List.mem_cons_self
  | weak c => rw [List.mem_singleton.1 ho]; rfl
  | _ => cases ho

/-- Taking a value over changes counts alone. -/
theorem Store.upgrade_cases (s : Store) (v : Value) : (s.upgrade v).2 = s ∨
    ∃ c, (s.upgrade v).2 = (s.adjust (· + 1) (.cell c)).adjust (· - 1) (.weakCell c) := by
  cases v with
  | weak c =>
    rw [upgrade]
    split
    · refine .inr ⟨c, ?_⟩
      rw [release_cons]
      exact release_nil _
    · exact .inl rfl
  | _ => exact .inl rfl

theorem Store.cell?_upgrade (s : Store) (v : Value) (c : CellId) :
    (s.upgrade v).2.cell? c = s.cell? c := by
  rcases s.upgrade_cases v with h | ⟨d, h⟩
  · rw [h]
  · rw [h, cell?_adjust, cell?_adjust]

theorem Store.has_upgrade (s : Store) (v : Value) (x : Share) :
    (s.upgrade v).2.has x = s.has x := by
  rcases s.upgrade_cases v with h | ⟨d, h⟩
  · rw [h]
  · rw [h, has_adjust, has_adjust]

/-- What a value in a hash refers to is there. -/
theorem Store.Covers.present_of_mem {s : Store} {f : Holding} (h : s.Covers f) {c : CellId}
    {es : List (Key × Value)} (hc : s.referent? c = some (.hash es)) {k : Key} {v : Value}
    (hv : (k, v) ∈ es) : ∀ o ∈ v.owned, s.present o := by
  obtain ⟨y, hy, hyr⟩ := Option.map_eq_some_iff.1 hc
  intro o ho
  have hmem : o ∈ y.owned := by
    rw [Cell.owned, hyr]
    exact List.mem_append_left _ (List.mem_flatMap.2 ⟨(k, v), hv, List.mem_append_right _ ho⟩)
  cases v with
  | ref d =>
    rw [List.mem_singleton.1 ho] at hmem ⊢
    exact h.alive (Nat.add_pos_left (Nat.lt_of_lt_of_le (holding_pos rfl hmem)
      (Store.holding_owned_le_held hy _)) _)
  | weak d => rw [List.mem_singleton.1 ho]; rfl
  | _ => cases ho

namespace Estate

variable {hash : String → UInt32} {S : CellId → String → Prop} {e d d' : Estate} {a : Act}

/-- Acts lead from one estate to another, and name slots of `S` alone. -/
def Leads (hash : String → UInt32) (S : CellId → String → Prop) (e d : Estate) : Prop :=
  ∃ ts, e.Run hash ts d ∧ ∀ t ∈ ts, ∀ c name, t.act.Touches c name → S c name

/-- The estate with another store, of which other things are held. -/
def now (e : Estate) (s : Store) (f : Holding) : Estate := { e with store := s, hand := f }

namespace Leads

theorem refl (e : Estate) : e.Leads hash S e :=
  ⟨[], .refl, fun _ ht => (List.not_mem_nil ht).elim⟩

theorem trans (h : e.Leads hash S d) (h' : d.Leads hash S d') : e.Leads hash S d' := by
  obtain ⟨ts, hr, hts⟩ := h
  obtain ⟨ts', hr', hts'⟩ := h'
  refine ⟨ts ++ ts', hr.trans hr', fun t ht => ?_⟩
  exact (List.mem_append.1 ht).elim (hts t) (hts' t)

theorem of_act (h : e.Allows a) (ha : ∀ c name, a.Touches c name → S c name) :
    e.Leads hash S (e.after hash a) :=
  ⟨[⟨e, a⟩], .single h, fun _ ht => by rw [List.mem_singleton.1 ht]; exact ha⟩

end Leads

/-! ## Operations of the store -/

/-- An act other than a fall can be done where nothing is being given back. -/
theorem allows_of_rest (hrest : e.falling = []) (ha : a ≠ .fall) (hfits : e.Fits a) :
    e.Allows a :=
  ⟨⟨fun h => absurd hrest h, fun h => absurd h ha⟩, hfits⟩

variable {s : Store} {f : Holding} {os : List Owned}

theorem leads_share (hrest : e.falling = []) (ho : ∀ o ∈ os, s.present o) :
    (e.now s f).Leads hash S (e.now (s.retain os) (holding os + f)) :=
  .of_act (a := .share os) (allows_of_rest hrest (by simp) ho) fun _ _ => False.elim

theorem leads_note (hrest : e.falling = []) (n : Note) :
    (e.now s f).Leads hash S (e.now (s.note n) f) :=
  .of_act (a := .note n) (allows_of_rest hrest (by simp) trivial) fun _ _ => False.elim

/-- What is being given back goes to its end. -/
theorem leads_falls (e : Estate) (s : Store) (f : Holding) (os : List Owned) :
    { e with store := s, hand := f, falling := os : Estate }.Leads hash S
      { e with store := s.release os, hand := f, falling := [] } := by
  induction s, os using Store.release.induct with
  | case1 s =>
    rw [Store.release_nil]
    exact .refl _
  | case2 s o rest _ ih =>
    rw [Store.release_cons]
    exact (Leads.of_act (a := .fall) ⟨⟨fun _ => rfl, fun _ => List.cons_ne_nil _ _⟩, trivial⟩
      fun _ _ => False.elim).trans ih

/-- Shares are given back. -/
theorem leads_release (hrest : e.falling = []) (s : Store) (f : Holding) (os : List Owned) :
    (e.now s (holding os + f)).Leads hash S (e.now (s.release os) f) := by
  have hdrop : (e.now s (holding os + f)).Leads hash S
      { e with store := s, hand := f, falling := os } := by
    have hleft : holding os + f - holding os = f := funext fun x => Nat.add_sub_cancel_left ..
    have hd : Leads hash S _ _ := .of_act (e := e.now s (holding os + f))
      (a := .drop os) (allows_of_rest hrest (by simp) fun x => Nat.le_add_right _ _)
      fun _ _ => False.elim
    simp only [after, now, hleft] at hd
    exact hd
  have hfalls : Leads hash S _ _ := leads_falls e s f os
  have hend : { e with store := s.release os, hand := f, falling := [] : Estate } =
      e.now (s.release os) f := by rw [now, ← hrest]
  rw [hend] at hfalls
  exact hdrop.trans hfalls

/-- A weak reference is given back for a strong one, or for nothing. -/
theorem leads_upgrade (hrest : e.falling = []) (s : Store) (f : Holding) (v : Value) :
    (e.now s (holding v.owned + f)).Leads hash S
      (e.now (s.upgrade v).2 (holding (s.upgrade v).1.owned + f)) := by
  cases v with
  | weak c =>
    rw [Store.upgrade]
    split
    · rename_i hc
      have hshare : Leads hash S (e.now s (holding [.weakCell c] + f))
          (e.now (s.retain [.cell c]) _) :=
        leads_share hrest fun o ho => by rw [List.mem_singleton.1 ho]; exact hc
      rw [add_left_comm] at hshare
      exact hshare.trans (leads_release hrest _ _ [.weakCell c])
    · rename_i hc
      -- a weak reference to a cell that is gone is counted nowhere
      have hnone : s.cells.find? c = none := Option.not_isSome_iff_eq_none.1 hc
      have hrel : Leads hash S _ _ := leads_release hrest s f [.weakCell c]
      have hsame : s.release [.weakCell c] = s := by
        rw [Store.release_cons]
        refine (Store.release_nil _).trans ?_
        show { s with cells := s.cells.modify c _ } = s
        rw [Table.modify_of_find?_eq_none hnone]
      rw [hsame] at hrel
      show (e.now s _).Leads hash S (e.now s (0 + f))
      rw [zero_add]
      exact hrel
  | _ => exact .refl _

variable {c : CellId} {es : List (Key × Value)} {slot : Key}

section

variable {old r : Referent} {g : Holding} (hc : s.referent? c = some old)
  (heq : ∀ x, holding r.owned x + g x = holding old.owned x + f x)

include hc heq

/-- A cell that is written, by what is held before and after. -/
theorem affords_of_eq : (e.now s f).Affords c r := by
  refine ⟨Store.alive_iff_referent?.2 ⟨_, hc⟩, fun x => ?_⟩
  have howned : (e.now s f).store.ownedAt c = old.owned := by
    rw [now, Store.ownedAt, hc]
    rfl
  have := heq x
  rw [howned]
  show _ ≤ _ + f x
  omega

theorem rewrite_eq_now : (e.now s f).rewrite c r = e.now (s.setReferent c r) g := by
  have howned : (e.now s f).store.ownedAt c = old.owned := by
    rw [now, Store.ownedAt, hc]
    rfl
  have hgot : holding old.owned + f - holding r.owned = g := by
    funext x
    have := heq x
    simp only [Pi.sub_apply, Pi.add_apply]
    omega
  rw [rewrite, howned]
  simp only [now, hgot]

end

/-- A value is put into a slot. -/
theorem leads_put (hrest : e.falling = []) (hc : s.referent? c = some (.hash es))
    (hslot : slot ∈ e.keys) (hS : S c slot.text) {v : Value} {g : Holding}
    (heq : ∀ x, holding (Referent.hash (Entries.put slot v es)).owned x + g x =
      holding (Referent.hash es).owned x + f x) :
    (e.now s f).Leads hash S
      (e.now (s.setReferent c (.hash (Entries.put slot v es))) g) := by
  have hat : (e.now s f).store.entriesAt c = es := by rw [now, Store.entriesAt, hc]
  have hd : Leads hash S _ _ := .of_act (e := e.now s f) (a := .put c slot v)
    (allows_of_rest hrest (by simp) ⟨⟨es, hc⟩, hslot, hat.symm ▸ affords_of_eq hc heq⟩) <| by
      rintro _ _ ⟨rfl, rfl⟩
      exact hS
  rwa [after, hat, rewrite_eq_now hc heq] at hd

/-- A slot is removed. -/
theorem leads_remove (hrest : e.falling = []) (hc : s.referent? c = some (.hash es))
    (hslot : slot ∈ e.keys) (hS : S c slot.text) {g : Holding}
    (heq : ∀ x, holding (Referent.hash (Entries.remove slot es)).owned x + g x =
      holding (Referent.hash es).owned x + f x) :
    (e.now s f).Leads hash S
      (e.now (s.setReferent c (.hash (Entries.remove slot es))) g) := by
  have hat : (e.now s f).store.entriesAt c = es := by rw [now, Store.entriesAt, hc]
  have hd : Leads hash S _ _ := .of_act (e := e.now s f) (a := .remove c slot)
    (allows_of_rest hrest (by simp) ⟨⟨es, hc⟩, hslot, hat.symm ▸ affords_of_eq hc heq⟩) <| by
      rintro _ _ ⟨rfl, rfl⟩
      exact hS
  rwa [after, hat, rewrite_eq_now hc heq] at hd

/-! ## Operations on slots -/

open Storage (Operation handedOut)

variable {inst : Value} {op : Operation} {v : Value}

/-- The slots that an operation on a slot of an instance may name. -/
def SlotOf (inst : Value) (slot : Key) (c : CellId) (name : String) : Prop :=
  inst = .ref c ∧ name = slot.text

section

variable (hrest : e.falling = []) (hslot : slot ∈ e.keys)
  (hc : s.referent? c = some (.hash es))

include hrest hc

theorem leads_get (hcov : s.Covers f) :
    (e.now s f).Leads hash S (e.now (Operation.run .get (.ref c) slot s).2
      (holding (handedOut (Operation.run .get (.ref c) slot s).1) + f)) := by
  cases hv : Entries.get? es slot with
  | none =>
    have hrun : Operation.run .get (.ref c) slot s = (.ok (.found none), s) := by
      simp only [Operation.run, Storage.get, Storage.hash?_of_referent? hc, hv]
      rfl
    rw [hrun]
    show (e.now s f).Leads hash S (e.now s (0 + f))
    rw [zero_add]
    exact .refl _
  | some v =>
    have hrun : Operation.run .get (.ref c) slot s =
        (.ok (.found (some ((s.retain v.owned).upgrade v).1)),
          ((s.retain v.owned).upgrade v).2) := by
      simp only [Operation.run, Storage.get, Storage.hash?_of_referent? hc, hv]
      rfl
    obtain ⟨k, hk⟩ := Entries.mem_of_get? hv
    rw [hrun]
    simp only [handedOut, Storage.Answer.values, Option.toList_some, ownedByAll_singleton]
    exact (leads_share hrest (hcov.present_of_mem hc hk)).trans (leads_upgrade hrest _ f v)

include hslot

theorem leads_set (hname : s.nameAlive slot.name) (hcov : s.Covers (holding v.owned + f)) :
    (e.now s (holding v.owned + f)).Leads hash (SlotOf (.ref c) slot)
      (e.now (Operation.run (.set v) (.ref c) slot s).2
        (holding (handedOut (Operation.run (.set v) (.ref c) slot s).1) + f)) := by
  obtain ⟨stored, hstored⟩ : ∃ stored, (s.upgrade v).1 = stored := ⟨_, rfl⟩
  -- the value as it is stored, and the copy of it that is answered
  have hpres := (hcov.upgrade (v := v)).present_of_held
  rw [hstored] at hpres
  have hcopied : (e.now s (holding v.owned + f)).Leads hash (SlotOf (.ref c) slot)
      (e.now ((s.upgrade v).2.retain stored.owned)
        (holding stored.owned + (holding stored.owned + f))) := by
    have hup : Leads hash (SlotOf (.ref c) slot) _ _ := leads_upgrade hrest s f v
    rw [hstored] at hup
    exact hup.trans (leads_share hrest hpres)
  have hc' (os : List Owned) :
      ((s.upgrade v).2.retain os).referent? c = some (.hash es) := by
    rw [Store.referent?, Store.cell?_retain, Store.cell?_upgrade]
    exact hc
  cases hv : Entries.get? es slot with
  | none =>
    have hrun : Operation.run (.set v) (.ref c) slot s = (.ok (.stored stored),
        (((s.upgrade v).2.retain stored.owned).retain slot.owned).setReferent c
          (.hash (Entries.put slot stored es))) := by
      simp only [Operation.run, Storage.set, Storage.hash?_of_referent? hc, hv, hstored]
      rfl
    have hkey : ∀ o ∈ slot.owned, ((s.upgrade v).2.retain stored.owned).present o := by
      intro o ho
      rw [List.mem_singleton.1 ho]
      exact (Store.has_retain _ _ (.name slot.name.id)).trans
        ((s.has_upgrade v (.name slot.name.id)).trans hname)
    have hput : Leads hash (SlotOf (.ref c) slot) _ _ := leads_put
      (f := holding slot.owned + (holding stored.owned + (holding stored.owned + f)))
      (g := holding stored.owned + f) hrest (hc' (stored.owned ++ slot.owned)) hslot ⟨rfl, rfl⟩
      (v := stored) fun x => by
        have := Entries.holding_put_none hv stored x
        simp only [Pi.add_apply]
        omega
    rw [Store.retain, List.foldl_append] at hput
    rw [hrun]
    simp only [handedOut, Storage.Answer.values, ownedByAll_singleton]
    exact hcopied.trans ((leads_share hrest hkey).trans hput)
  | some previous =>
    have hrun : Operation.run (.set v) (.ref c) slot s = (.ok (.stored stored),
        (((s.upgrade v).2.retain stored.owned).setReferent c
          (.hash (Entries.put slot stored es))).release previous.owned) := by
      simp only [Operation.run, Storage.set, Storage.hash?_of_referent? hc, hv, hstored]
      rfl
    have hput : Leads hash (SlotOf (.ref c) slot) _ _ := leads_put
      (f := holding stored.owned + (holding stored.owned + f))
      (g := holding previous.owned + (holding stored.owned + f)) hrest (hc' stored.owned) hslot
      ⟨rfl, rfl⟩ (v := stored) fun x => by
        have := Entries.holding_put_some hv stored x
        simp only [Pi.add_apply]
        omega
    rw [hrun]
    simp only [handedOut, Storage.Answer.values, ownedByAll_singleton]
    exact hcopied.trans (hput.trans (leads_release hrest _ _ previous.owned))

theorem leads_delete :
    (e.now s f).Leads hash (SlotOf (.ref c) slot)
      (e.now (Operation.run .delete (.ref c) slot s).2
        (holding (handedOut (Operation.run .delete (.ref c) slot s).1) + f)) := by
  cases hv : Entries.lookup? es slot with
  | none =>
    have hrun : Operation.run .delete (.ref c) slot s = (.ok (.found none), s) := by
      simp only [Operation.run, Storage.delete, Storage.hash?_of_referent? hc, hv]
      rfl
    rw [hrun]
    show (e.now s f).Leads hash _ (e.now s (0 + f))
    rw [zero_add]
    exact .refl _
  | some p =>
    obtain ⟨key, v⟩ := p
    have hrun : Operation.run .delete (.ref c) slot s =
        (.ok (.found (some (((s.setReferent c (.hash (Entries.remove slot es))).release
          key.owned).upgrade v).1)),
        (((s.setReferent c (.hash (Entries.remove slot es))).release key.owned).upgrade v).2) := by
      simp only [Operation.run, Storage.delete, Storage.hash?_of_referent? hc, hv]
      rfl
    have hremove : (e.now s f).Leads hash (SlotOf (.ref c) slot)
        (e.now (s.setReferent c (.hash (Entries.remove slot es)))
          (holding key.owned + (holding v.owned + f))) :=
      leads_remove hrest hc hslot ⟨rfl, rfl⟩ fun x => by
        have := Entries.holding_remove hv x
        simp only [Pi.add_apply] at this ⊢
        omega
    rw [hrun]
    simp only [handedOut, Storage.Answer.values, Option.toList_some, ownedByAll_singleton]
    exact hremove.trans ((leads_release hrest _ _ key.owned).trans (leads_upgrade hrest _ f v))

theorem leads_weaken :
    (e.now s f).Leads hash (SlotOf (.ref c) slot)
      (e.now (Operation.run (.weaken .weaken) (.ref c) slot s).2
        (holding (handedOut (Operation.run (.weaken .weaken) (.ref c) slot s).1) + f)) := by
  -- where there is no strong reference nothing is done
  have hrest' {a : Except Error Storage.Answer} (ha : handedOut a = [])
      (hrun : Operation.run (.weaken .weaken) (.ref c) slot s = (a, s)) :
      (e.now s f).Leads hash (SlotOf (.ref c) slot)
        (e.now (Operation.run (.weaken .weaken) (.ref c) slot s).2
          (holding (handedOut (Operation.run (.weaken .weaken) (.ref c) slot s).1) + f)) := by
    rw [hrun, ha, holding_nil, zero_add]
    exact .refl _
  cases hv : Entries.get? es slot with
  | none =>
    refine hrest' (a := .ok .nothing) rfl ?_
    simp only [Operation.run, Storage.weaken, Storage.hash?_of_referent? hc, hv]
    rfl
  | some v =>
    cases v with
    | ref t =>
      have hrun : Operation.run (.weaken .weaken) (.ref c) slot s = (.ok .nothing,
          ((s.retain [.weakCell t]).setReferent c
            (.hash (Entries.put slot (.weak t) es))).release [.cell t]) := by
        simp only [Operation.run, Storage.weaken, Storage.hash?_of_referent? hc, hv]
        rfl
      have hc' : (s.retain [.weakCell t]).referent? c = some (.hash es) := by
        rw [Store.referent?, Store.cell?_retain]
        exact hc
      have hput : Leads hash (SlotOf (.ref c) slot) _ _ := leads_put
        (f := holding [.weakCell t] + f) (g := holding [.cell t] + f) hrest hc' hslot
        ⟨rfl, rfl⟩ (v := .weak t) fun x => by
          have := Entries.holding_put_some hv (.weak t) x
          simp only [Value.owned] at this
          simp only [Pi.add_apply]
          omega
      rw [hrun]
      show (e.now s f).Leads hash _ (e.now _ (0 + f))
      rw [zero_add]
      exact (leads_share hrest fun o ho => by rw [List.mem_singleton.1 ho]; rfl).trans
        (hput.trans (leads_release hrest _ _ [.cell t]))
    | undef | weak t =>
      refine hrest' (a := .ok .nothing) rfl ?_
      simp only [Operation.run, Storage.weaken, Storage.hash?_of_referent? hc, hv]
      rfl
    | _ =>
      refine hrest' (a := (Operation.run (.weaken .weaken) (.ref c) slot s).1) ?_ (Prod.ext rfl ?_)
      · simp only [Operation.run, Storage.weaken, Storage.hash?_of_referent? hc, hv]
        rfl
      · simp only [Operation.run, Storage.weaken, Storage.hash?_of_referent? hc, hv]

end

/-- An operation on a slot is a run that names no other slot. What is given is taken over, and what
is answered belongs to the caller. -/
theorem leads_operation (hrest : e.falling = []) (hslot : slot ∈ e.keys)
    (hname : s.nameAlive slot.name) (hcov : s.Covers (holding op.given + f)) :
    (e.now s (holding op.given + f)).Leads hash (SlotOf inst slot)
      (e.now (op.run inst slot s).2
        (holding (handedOut (op.run inst slot s).1) + f)) := by
  have hrel : Leads hash (SlotOf inst slot) _ _ := leads_release hrest s f op.given
  cases he : op.early? slot.text with
  | some a =>
    obtain ⟨hrun, hgiven⟩ := Storage.run_of_early inst s he
    have hnone : handedOut a = [] := by
      cases op with
      | weaken policy => cases policy <;> cases he <;> rfl
      | _ => cases he
    rw [hrun, hnone, hgiven, holding_nil]
    exact .refl _
  | none =>
    cases hi : s.hash? inst with
    | none =>
      rw [Storage.run_of_stranger he hi]
      show Leads hash _ _ (e.now _ (0 + f))
      rw [zero_add]
      exact hrel
    | some p =>
      obtain ⟨c, es⟩ := p
      obtain ⟨rfl, hc⟩ := Store.hash?_eq_some hi
      cases op with
      | has =>
        have hrun : Operation.run .has (.ref c) slot s =
            (.ok (.flag (Entries.lookup? es slot).isSome), s) := by
          simp only [Operation.run, Storage.has, hi]
          rfl
        rw [hrun]
        exact .refl _
      | get =>
        rw [show Operation.get.given = [] from rfl, holding_nil, zero_add] at hcov ⊢
        exact leads_get hrest hc hcov
      | set v => exact leads_set hrest hslot hc hname hcov
      | delete =>
        rw [show Operation.delete.given = [] from rfl, holding_nil, zero_add]
        exact leads_delete hrest hslot hc
      | weaken policy =>
        cases policy with
        | weaken =>
          rw [show (Operation.weaken .weaken).given = [] from rfl, holding_nil, zero_add]
          exact leads_weaken hrest hslot hc
        | _ => cases he

end Estate

end MetaCache
