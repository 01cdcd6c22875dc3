import MetaCache.Proofs.Custody.Operations
import MetaCache.Proofs.Ownership.Slot
import MetaCache.Proofs.Play.Basic
/-!
# Lookups as runs

What the cache does comes to acts of an estate, too: keys asked for, records put into extension
slots and taken out of them, structures built and given back. If the same is true of the methods
that a lookup calls, it is true of the whole lookup, however deep it is nested.

* `World.estate`, `World.Minds`: a world as an estate, and what leads from one world to another.
* `World.minds_discard`, `World.minds_cached?`, `World.minds_publish`: the ways in which a lookup
  touches a slot.
* `Host.Minds`: a host whose methods come to acts of the estate.
* `Host.Minds.lookup`, `Host.Minds.stuck`: lookups on such a host, and those that do not end.
-/

namespace MetaCache

namespace Estate

variable {hash : String → UInt32} {S : CellId → String → Prop} {e d : Estate} {s : Store}
  {f : Holding}

theorem Leads.exact (h : e.Leads hash S d) (he : e.Exact) : d.Exact := by
  obtain ⟨ts, hr, -⟩ := h
  exact he.run hr

theorem leads_attach (hrest : e.falling = []) {c : CellId} (hc : s.alive c) (r? : Option Record) :
    (e.now s (holding (ownedByRecord? r?) + f)).Leads hash S
      (e.now (s.setExtension c r?) (holding (ownedByRecord? (s.extension? c)) + f)) := by
  have hleft : holding (ownedByRecord? r?) + f - holding (ownedByRecord? r?) = f :=
    funext fun x => Nat.add_sub_cancel_left ..
  have hd : Leads hash S _ _ := .of_act (a := .attach c r?)
    (e := e.now s (holding (ownedByRecord? r?) + f))
    (allows_of_rest hrest (by simp) ⟨hc, fun x => Nat.le_add_right _ _⟩) fun _ _ => False.elim
  simp only [after, now, hleft] at hd
  exact hd

theorem leads_newCell (hrest : e.falling = []) (s : Store) (f : Holding) {r : Referent}
    (hr : ∀ es, r = .hash es →
      (∀ p ∈ es, p.1 ∈ e.keys) ∧ (es.map fun p => p.1.text).Nodup) :
    (e.now s (holding r.owned + f)).Leads hash S
      (e.now (s.newCell r).2 (holding [.cell s.cells.next] + f)) := by
  have hleft : holding r.owned + f - holding r.owned = f :=
    funext fun x => Nat.add_sub_cancel_left ..
  have hd : Leads hash S _ _ := .of_act (a := .newCell r) (e := e.now s (holding r.owned + f))
    (allows_of_rest hrest (by simp) ⟨fun x => Nat.le_add_right _ _, hr⟩) fun _ _ => False.elim
  simp only [after, now, hleft] at hd
  exact hd

theorem leads_newPayload (hrest : e.falling = []) (s : Store) (f : Holding) (p : Payload) :
    (e.now s (holding p.owned + f)).Leads hash S
      (e.now (s.newPayload p).2 (holding [.payload s.payloads.next] + f)) := by
  have hleft : holding p.owned + f - holding p.owned = f :=
    funext fun x => Nat.add_sub_cancel_left ..
  have hd : Leads hash S _ _ := .of_act (a := .newPayload p)
    (e := e.now s (holding p.owned + f))
    (allows_of_rest hrest (by simp) fun x => Nat.le_add_right _ _) fun _ _ => False.elim
  simp only [after, now, hleft] at hd
  exact hd

end Estate

namespace World

/-- A world as an estate: besides what registry and session hold, somebody holds `f`. -/
def estate (w : World) (ks : List Key) (f : Holding) : Estate where
  store := w.store
  table := w.cache.keys
  keys := ks
  hand := holding w.roots + f

/-- Acts that name slots of `S` alone lead from `w`, with `f` held, to `w'`, with `f'` held,
whatever else is held besides. -/
def Minds (S : CellId → String → Prop) (w : World) (f : Holding) (w' : World) (f' : Holding) :
    Prop :=
  w'.cache.nameHash = w.cache.nameHash ∧ ∀ g ks, (w.estate ks (f + g)).Exact →
    ∃ ks', (w.estate ks (f + g)).Leads w.cache.nameHash S (w'.estate ks' (f' + g))

variable {S : CellId → String → Prop} {w w' w'' : World} {f f' f'' : Holding} {host : Host}

namespace Minds

theorem refl (w : World) (f : Holding) : w.Minds S f w f :=
  ⟨rfl, fun _ ks _ => ⟨ks, .refl _⟩⟩

theorem trans (h : w.Minds S f w' f') (h' : w'.Minds S f' w'' f'') : w.Minds S f w'' f'' := by
  refine ⟨h'.1.trans h.1, fun g ks he => ?_⟩
  obtain ⟨ks', hl⟩ := h.2 g ks he
  obtain ⟨ks'', hl'⟩ := h'.2 g ks' (hl.exact he)
  rw [h.1] at hl'
  exact ⟨ks'', hl.trans hl'⟩

/-- What comes next may rely on the counts. -/
theorem trans_of_exact (h : w.Minds S f w' f') (hn : w''.cache.nameHash = w'.cache.nameHash)
    (h' : ∀ {g ks}, (w'.estate ks (f' + g)).Exact → w'.Minds S f' w'' f'') :
    w.Minds S f w'' f'' := by
  refine ⟨hn.trans h.1, fun g ks he => ?_⟩
  obtain ⟨ks', hl⟩ := h.2 g ks he
  have hexact := hl.exact he
  obtain ⟨ks'', hl'⟩ := (h' hexact).2 g ks' hexact
  rw [h.1] at hl'
  exact ⟨ks'', hl.trans hl'⟩

theorem frame (h : w.Minds S f w' f') (g : Holding) : w.Minds S (f + g) w' (f' + g) := by
  refine ⟨h.1, fun k ks he => ?_⟩
  rw [add_assoc] at he ⊢
  rw [add_assoc]
  exact h.2 (g + k) ks he

/-- An operation of the store, next to what registry and session hold. -/
theorem of_store {s : Store} (h : ∀ g ks, (w.estate ks (f + g)).Exact →
    ((w.estate ks 0).now w.store (f + (holding w.roots + g))).Leads w.cache.nameHash S
      ((w.estate ks 0).now s (f' + (holding w.roots + g)))) :
    w.Minds S f { w with store := s } f' := by
  refine ⟨rfl, fun g ks he => ⟨ks, ?_⟩⟩
  have hl := h g ks he
  rw [add_left_comm, add_left_comm f'] at hl
  exact hl

theorem release (w : World) (os : List Owned) :
    w.Minds S (holding os) (w.onStore (·.release os)) 0 :=
  .of_store fun _ _ _ => by
    rw [zero_add]
    exact Estate.leads_release rfl _ _ os

theorem retain {os : List Owned}
    (h : ∀ g ks, (w.estate ks g).Exact → ∀ o ∈ os, w.store.present o) :
    w.Minds S 0 (w.onStore (·.retain os)) (holding os) :=
  .of_store fun g ks he => by
    rw [zero_add] at he ⊢
    exact Estate.leads_share rfl (h g ks he)

theorem note (w : World) (n : Note) : w.Minds S 0 (w.onStore (·.note n)) 0 :=
  .of_store fun _ _ _ => Estate.leads_note rfl n

theorem upgrade (w : World) (v : Value) :
    w.Minds S (holding v.owned) { w with store := (w.store.upgrade v).2 }
      (holding (w.store.upgrade v).1.owned) :=
  .of_store fun _ _ _ => Estate.leads_upgrade rfl _ _ v

theorem sweepKeys (w : World) : w.Minds S 0 w.sweepKeys 0 :=
  ⟨rfl, fun _ ks _ => ⟨ks, .of_act (a := .sweep) (Estate.allows_of_rest rfl (by simp) trivial)
    fun _ _ => False.elim⟩⟩

/-- Nothing is done to the store, the keys, the registry or the variables. -/
theorem of_eq (hs : w'.store = w.store) (hk : w'.cache.keys = w.cache.keys)
    (hh : w'.cache.nameHash = w.cache.nameHash) (hr : w'.roots = w.roots) :
    w.Minds S f w' f := by
  refine ⟨hh, fun g ks _ => ⟨ks, ?_⟩⟩
  rw [estate, estate, hs, hk, hr]
  exact .refl _

/-- A key is a share of its name. -/
theorem key (w : World) (name : String) :
    w.Minds S 0 (w.key name).2 (holding (w.key name).1.owned) := by
  -- asking for a key, or making one, is one act
  have hact (a : Estate.Act) (ha : a ≠ .fall) (hs : ∀ c n, a.Touches c n → S c n) (g : Holding)
      (ks : List Key) (hfits : (w.estate ks g).Fits a) :
      (w.estate ks g).Leads w.cache.nameHash S ((w.estate ks g).after w.cache.nameHash a) :=
    .of_act (Estate.allows_of_rest rfl ha hfits) hs
  unfold World.key
  split
  · refine ⟨rfl, fun g ks _ =>
      ⟨(w.cache.keys.intern w.cache.nameHash name w.store).1 :: ks, ?_⟩⟩
    have hl := hact (.intern name) (by simp) (fun _ _ => False.elim) g ks trivial
    rw [zero_add]
    rw [Estate.after, estate, add_left_comm] at hl
    exact hl
  · refine ⟨rfl, fun g ks _ => ⟨⟨(w.store.newName name).1, w.cache.nameHash name⟩ :: ks, ?_⟩⟩
    have hl := hact (.newKey name) (by simp) (fun _ _ => False.elim) g ks trivial
    rw [zero_add]
    rw [Estate.after, estate, add_left_comm] at hl
    exact hl

end Minds

/-! ## The ways in which a lookup touches a slot -/

/-- What was in the slot is given back. -/
theorem minds_discard {target : CellId} {r : Record} (hr : w.store.extension? target = some r)
    (n : Note) : w.Minds S 0 (w.discard target r n) 0 := by
  have halive : w.store.alive target := Store.alive_of_extension? hr
  have hnote : w.Minds S 0 (w.onStore (·.note n)) 0 := .note w n
  have hempty : (w.onStore (·.note n)).Minds S 0
      (w.onStore fun s => (s.note n).setExtension target none) (holding r.owned) :=
    .of_store fun g ks _ => by
      have hl : Estate.Leads w.cache.nameHash S _ _ := Estate.leads_attach
        (e := (w.onStore (·.note n)).estate ks 0) (s := w.store.note n)
        (f := holding (w.onStore (·.note n)).roots + g) rfl halive none
      rw [show (w.store.note n).extension? target = some r from hr] at hl
      exact hl
  have hcount (v : World) (f : Stats → Stats) : v.Minds S (holding r.owned) (v.count f)
      (holding r.owned) := .of_eq rfl rfl rfl rfl
  exact hnote.trans (hempty.trans ((hcount _ _).trans
    ((Minds.release _ r.owned).trans (.sweepKeys _))))

/-- What is found in the slot is shared, and what is stale is given back. -/
theorem minds_cached? (host : Host) (wanted : Wanted) (target : CellId) (w : World) :
    w.Minds S 0 (w.cached? host wanted target).2
      (holding ((w.cached? host wanted target).1.map Owned.payload).toList) := by
  cases hr : w.store.extension? target with
  | none =>
    rw [cached?_of_none host wanted hr]
    exact .refl w 0
  | some r =>
    by_cases hfresh : w.isFresh host wanted r
    · obtain ⟨⟨p, hp, -⟩, -⟩ := isFresh_iff.1 hfresh
      obtain ⟨e, he, -⟩ := Option.map_eq_some_iff.1 hp
      rw [cached?_of_fresh hr hfresh]
      let w₁ := w.count fun st => { st with hits := st.hits + 1 }
      let w₂ := w₁.onStore (·.retain [.payload r.payload])
      have hcount : w.Minds S 0 w₁ 0 := .of_eq rfl rfl rfl rfl
      have hshare : w₁.Minds S 0 w₂ (holding [.payload r.payload]) := .retain fun _ _ _ o ho => by
        rw [List.mem_singleton.1 ho]
        exact Option.isSome_iff_exists.2 ⟨e, he⟩
      have hnote := (Minds.note (S := S) w₂ (.cacheHit (w.store.cellText target)
        r.generation)).frame (holding [.payload r.payload])
      rw [zero_add] at hnote
      exact hcount.trans (hshare.trans hnote)
    · rw [cached?_of_stale hr hfresh]
      exact minds_discard hr _

/-- A structure goes into the slot, and what was in it is given back. -/
theorem minds_publish {target : CellId} (halive : w.store.alive target) (p : Payload)
    (generation : Nat) (governor : CellId) :
    w.Minds S (holding [.held p]) (w.publish target p generation governor).2
      (holding [.payload w.store.payloads.next]) := by
  have hstore : w.Minds S (holding [.held p])
      { w with store := (w.publish target p generation governor).2.store }
      (holding [.payload w.store.payloads.next]) := .of_store fun g ks _ => by
    let e := w.estate ks 0
    let f := holding w.roots + g
    let r : Record := { payload := w.store.payloads.next, generation, governor }
    have hnew : Estate.Leads w.cache.nameHash S _ _ :=
      Estate.leads_newPayload (e := e) rfl w.store f p
    have hshare : Estate.Leads w.cache.nameHash S _ _ := Estate.leads_share (e := e)
      (f := holding [.payload w.store.payloads.next] + f) rfl
      (w.store.present_record p generation governor)
    have hthere : ((w.store.newPayload p).2.retain r.owned).alive target :=
      (Store.has_retain _ _ (.cell target)).trans halive
    have hattach : Estate.Leads w.cache.nameHash S _ _ := Estate.leads_attach (e := e)
      (f := holding [.payload w.store.payloads.next] + f) rfl hthere (some r)
    rw [holding_held]
    exact hnew.trans (hshare.trans (hattach.trans ((Estate.leads_note rfl _).trans
      (Estate.leads_release rfl _ _ _))))
  exact hstore.trans (.of_eq rfl rfl rfl rfl)

end World

/-! ## Hosts -/

/-- A host whose methods come to acts that name slots of `S` alone, and whose classes are there. -/
structure Host.Minds (host : Host) (S : CellId → String → Prop) : Prop where
  answers : ∀ q : Query, host.Answers q →
    q.before.Minds S 0 q.after (holding (ownedByReply q.reply))
  classes : ∀ {w : World} {g : Holding} {ks : List Key} {name : String} {c : CellId},
    (w.estate ks g).Exact → host.class? w name = some c → w.store.alive c

variable {host : Host} {S : CellId → String → Prop} {w w' : World}

/-- The ledger of what comes to acts. -/
def minding (h : host.Minds S) : Ledger host where
  Step := World.Minds S
  refl := .refl
  trans := .trans
  frame g h := h.frame g
  release := .release
  note := .note
  retainWeak _ _ := .retain fun _ _ _ _ ho => by rw [List.mem_singleton.1 ho]; rfl
  retainClass hc := .retain fun _ _ he _ ho => by
    rw [List.mem_singleton.1 ho]
    exact h.classes he hc
  key := .key
  upgrade := .upgrade
  query hq := h.answers _ hq

/-- A lookup on a host whose methods come to acts comes to acts itself. -/
theorem Host.Minds.lookup (h : host.Minds S) {l : Lookup} {r : Except Error PayloadId}
    (hl : l.run host w = .ok (r, w')) : w.Minds S (holding l.owned) w'
      (outcome (fun p => holding [.payload p]) r + holding l.owned) := by
  by_cases ho : ∃ c, l.object = .ref c
  · obtain ⟨c, ho⟩ := ho
    have hslot := w.minds_cached? (S := S) host l.wanted c
    cases hc : w.cached? host l.wanted c with
    | mk o w₁ =>
      rw [hc] at hslot
      have hslot := hslot.frame (holding l.owned)
      rw [zero_add] at hslot
      cases o with
      | some p =>
        rw [Lookup.run_eq ho, hc] at hl
        cases hl
        exact hslot
      | none =>
        rw [Lookup.run_of_miss (.refl host) ho hc, Build.bind_apply] at hl
        cases hx : (l.compilation host).run host w₁ with
        | error e => rw [hx] at hl; cases hl
        | ok a =>
          obtain ⟨r₁, w₂⟩ := a
          rw [hx] at hl
          have hmeets := (l.balanced_compilation host).meets (L := minding h) w₁
          have hcompiled := hmeets.done r₁ w₂ hx
          have hbuilt := hslot.trans (World.Minds.frame hcompiled (holding l.owned))
          cases r₁ with
          | error e =>
            cases hl
            exact hbuilt
          | ok x =>
            cases hl
            refine hbuilt.trans_of_exact rfl fun he => ?_
            refine World.Minds.frame (World.minds_publish ?_ _ _ _) _
            -- the caller holds what is looked up
            refine he.covers.alive (Nat.add_pos_right _ (Nat.add_pos_right _ (Nat.add_pos_right _
              (Nat.add_pos_left (Nat.add_pos_right _ ?_) _))))
            exact Lookup.object_pos ho
  · rw [Lookup.run_of_no_ref fun c hc => ho ⟨c, hc⟩] at hl
    cases hl
    have hnone : outcome (fun p => holding [.payload p]) (.error (.mismatch (.notAttachable
      (w.store.valueText l.object)))) = 0 := rfl
    rw [hnone, zero_add]
    exact .refl w _

/-- A lookup that does not end comes to acts up to the method call that does not. -/
theorem Host.Minds.stuck (h : host.Minds S) {l : Lookup} {e : Halt} (hl : l.run host w = .error e) :
    ∃ w₁ held v m, w.Minds S (holding l.owned) w₁ (held + holding l.owned) ∧
      host.callMethod v m w₁ = .error e := by
  by_cases ho : ∃ c, l.object = .ref c
  · obtain ⟨c, ho⟩ := ho
    have hslot := w.minds_cached? (S := S) host l.wanted c
    cases hc : w.cached? host l.wanted c with
    | mk o w₁ =>
      rw [hc] at hslot
      have hslot := hslot.frame (holding l.owned)
      rw [zero_add] at hslot
      cases o with
      | some p =>
        rw [Lookup.run_eq ho, hc] at hl
        cases hl
      | none =>
        rw [Lookup.run_of_miss (.refl host) ho hc, Build.bind_apply] at hl
        have hmeets := (l.balanced_compilation host).meets (L := minding h) w₁
        cases hx : (l.compilation host).run host w₁ with
        | error e' =>
          rw [hx] at hl
          cases hl
          obtain ⟨w₂, held, v, m, hcompiled, hcall⟩ := hmeets.stuck e hx
          exact ⟨w₂, held, v, m, hslot.trans (World.Minds.frame hcompiled (holding l.owned)), hcall⟩
        | ok a =>
          obtain ⟨r₁, w₂⟩ := a
          rw [hx] at hl
          cases r₁ <;> cases hl
  · rw [Lookup.run_of_no_ref fun c hc => ho ⟨c, hc⟩] at hl
    cases hl

/-- A discard on request. -/
theorem World.minds_invalidate (w : World) (v : Value) : w.Minds S 0 (w.invalidate v).2 0 := by
  rcases w.invalidate_cases v with h | ⟨target, r, n, hr, h⟩
  · rw [h]
    exact .refl w 0
  · rw [h]
    exact World.minds_discard hr n

end MetaCache
