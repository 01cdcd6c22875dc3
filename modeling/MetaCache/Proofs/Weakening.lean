import MetaCache.Proofs.Custody.Hosts
/-!
# Weakened slots

Weakening takes one owner from the cell that a slot refers to and leaves the slot in its place. From
then on the slot reads as that cell exactly as long as somebody has kept a strong share of it
without interruption, be it another slot, a variable, a caller, or a structure that is being given
back; and it reads as undefined from the moment at which the last of them goes. Nothing that does
not name the slot changes that.

* `Storage.weaken_of_ref`, `Storage.reads_of_weak`: slots with strong and with weak references.
* `Estate.ReadsWeakly`, `Estate.Weakened`: what a weakened slot reads as, and what weakening does.
* `Estate.weakened_slot`: weakening does that.
* `Estate.pairEstate`: an instance with a slot, for an example.
-/

namespace MetaCache

variable {hash : String → UInt32} {label : NameId → String} {s : Store} {c t : CellId}
  {slot : Key}

/-- The instance whose slot holds something is a hash. -/
theorem Store.exists_of_slot? {name : String} {v : Value} (h : s.slot? c name = some v) :
    ∃ es, s.referent? c = some (.hash es) ∧ Entries.slots es name = some v := by
  obtain ⟨m, hm, hv⟩ := Option.bind_eq_some_iff.1 h
  unfold Store.slots? at hm
  split at hm
  · cases hm
    exact ⟨_, ‹_›, hv⟩
  · cases hm

/-- A share given back is one owner less. -/
theorem Store.strongCount_release (s : Store) (t : CellId) :
    (s.release [.cell t]).strongCount t = s.strongCount t - 1 := by
  rw [release_cons]
  rcases releaseOne_cases (o := .cell t) rfl s with ⟨hr, hgone⟩ | ⟨hr, -⟩ | ⟨hr, -, -, hone⟩
  · have hzero : s.strongCount t = 0 := count_of_not_has hgone
    rw [hr, List.append_nil, release_nil, hzero]
  · rw [hr, List.append_nil, release_nil]
    by_cases hs : s.has (.cell t)
    · exact count_adjust_self _ hs
    · have hzero : s.strongCount t = 0 := count_of_not_has hs
      have hzero' : (s.adjust (· - 1) (.cell t)).count (.cell t) = 0 :=
        count_of_not_has (by rwa [has_adjust])
      rw [hzero]
      exact hzero'
  · -- the cell is gone, and what it held does not bring it back
    rw [hr, List.append_nil]
    have hdead : ¬ ((s.remove (.cell t)).release (s.inside (.cell t))).has (.cell t) := fun h =>
      not_has_remove_self (s := s) (x := .cell t) rfl ((sheds_release _ _).alive h)
    have hzero : ((s.remove (.cell t)).release (s.inside (.cell t))).strongCount t = 0 :=
      count_of_not_has hdead
    exact hzero.trans (Nat.sub_eq_zero_of_le hone).symm

namespace Storage

/-- The store after a strong reference to `t` in the hash `es` in `c` has been made weak. -/
def weakenedStore (s : Store) (c : CellId) (es : List (Key × Value)) (slot : Key) (t : CellId) :
    Store :=
  ((s.retain [.weakCell t]).setReferent c (.hash (Entries.put slot (.weak t) es))).release [.cell t]

section

variable {es : List (Key × Value)} (hslot : slot.Proper hash label s.names.next)
  (hes : Entries.Proper hash label s.names.next es) (hc : s.referent? c = some (.hash es))

include hslot hes hc

theorem weaken_of_ref (ht : Entries.slots es slot.text = some (.ref t)) :
    weaken .weaken (.ref c) slot s = (.ok (), weakenedStore s c es slot t) := by
  have hget := Entries.get?_eq hslot hes
  simp only [weaken, hash?_of_referent? hc, hget, ht]
  rfl

/-- If the instance is still there, the slot holds the weak reference. -/
theorem slot?_weakenedStore (hlives : (weakenedStore s c es slot t).alive c) :
    (weakenedStore s c es slot t).slot? c slot.text = some (.weak t) := by
  have href : (s.retain [.weakCell t]).referent? c = some (.hash es) := by
    rw [Store.referent?, Store.cell?_retain]
    exact hc
  have hput : ((s.retain [.weakCell t]).setReferent c
      (.hash (Entries.put slot (.weak t) es))).referent? c =
        some (.hash (Entries.put slot (.weak t) es)) := by
    rw [Store.referent?_setReferent, if_pos rfl, href]
    rfl
  rw [weakenedStore] at hlives ⊢
  rw [Store.slot?_congr ((Store.sheds_release _ _).cell?_eq hlives), Store.slot?_of_hash hput,
    Entries.slots_put hslot hes]
  exact if_pos rfl

omit hslot hes hc in
theorem strongCount_weakenedStore (s : Store) (c : CellId) (es : List (Key × Value)) (slot : Key)
    (t : CellId) : (weakenedStore s c es slot t).strongCount t = s.strongCount t - 1 := by
  have hsame : ((s.retain [.weakCell t]).setReferent c
      (.hash (Entries.put slot (.weak t) es))).strongCount t = s.strongCount t :=
    (Store.count_writeCell _ c _ (.cell t)).trans
      (s.count_adjust_of_ne (· + 1) (x := .weakCell t) (y := .cell t) (by simp))
  rw [weakenedStore, Store.strongCount_release, hsame]

/-- A slot with a weak reference is there, reads as the cell while that lives, and stays as it is
when it is weakened. -/
theorem reads_of_weak (ht : Entries.slots es slot.text = some (.weak t)) :
    (has (.ref c) slot s).1 = .ok true ∧
      (get (.ref c) slot s).1 = .ok (some (if s.alive t then .ref t else .undef)) ∧
      weaken .weaken (.ref c) slot s = (.ok (), s) := by
  have hget := Entries.get?_eq hslot hes
  have hthere := Entries.isSome_lookup? hslot hes
  rw [ht] at hget hthere
  refine ⟨?_, ?_, ?_⟩
  · simp only [has, hash?_of_referent? hc, hthere, Option.isSome_some]
  · simp only [get, hash?_of_referent? hc, hget, Store.upgrade_fst, Value.seen,
      Store.alive_retain]
  · simp only [weaken, hash?_of_referent? hc, hget]

end

end Storage

namespace Estate

variable {e d : Estate} {ts : List Turn}

/-- What a slot of an instance reads as after a run, for whoever names it, if it holds a weak
reference to `t`. -/
structure ReadsWeakly (c t : CellId) (ts : List Turn) (d : Estate) (slot : Key) : Prop where
  /-- The slot is there. -/
  present : (Storage.has (.ref c) slot d.store).1 = .ok true
  /-- As long as there has been a strong owner all the time, it reads as a reference to the cell. -/
  held : Throughout (fun m => 0 < m.owners (.cell t)) ts d →
    (Storage.get (.ref c) slot d.store).1 = .ok (some (.ref t))
  /-- If there has been none for a moment, it reads as undefined. -/
  lost : ¬ Throughout (fun m => 0 < m.owners (.cell t)) ts d →
    (Storage.get (.ref c) slot d.store).1 = .ok (some .undef)
  /-- To weaken it again changes nothing. -/
  again : Storage.weaken .weaken (.ref c) slot d.store = (.ok (), d.store)

/-- A weak reference stays one as long as no act names the slot. -/
theorem Run.readsWeakly (hr : e.Run hash ts d) (he : e.Exact) (hs : e.Sound hash label)
    (hweak : e.store.slot? c slot.text = some (.weak t)) (ht : t < e.store.cells.next)
    (hno : ∀ u ∈ ts, ¬ u.act.Touches c slot.text) (hc : d.store.alive c) {k : Key} (hk : k ∈ d.keys)
    (hname : k.text = slot.text) : ReadsWeakly c t ts d k := by
  obtain ⟨_, hes₀, -⟩ := Store.exists_of_slot? hweak
  have hold : c < e.store.cells.next :=
    Store.lt_next_of_alive (Store.alive_iff_referent?.2 ⟨_, hes₀⟩)
  have hslot : d.store.slot? c slot.text = some (.weak t) :=
    (hr.slot?_eq hs hc hold hno).trans hweak
  obtain ⟨label', -, hd⟩ := hs.run hr
  obtain ⟨es, hes, hv⟩ := Store.exists_of_slot? hslot
  rw [← hname] at hv
  obtain ⟨hhas, hget, hagain⟩ := Storage.reads_of_weak (hd.keys k hk) (hd.entries c es hes) hes hv
  have halive : d.store.alive t ↔ Throughout (fun m => 0 < m.owners (.cell t)) ts d :=
    hr.has_iff he (x := .cell t) rfl ht
  refine ⟨hhas, fun h => ?_, fun h => ?_, hagain⟩
  · rw [hget, if_pos (halive.2 h)]
  · rw [hget, if_neg fun hlive => h (halive.1 hlive)]

/-- What it comes to that a slot of `c` which refers to `t` is weakened. -/
structure Weakened (hash : String → UInt32) (e : Estate) (c : CellId) (slot : Key) (t : CellId)
    (s : Store) : Prop where
  done : Storage.weaken .weaken (.ref c) slot e.store = (.ok (), s)
  /-- The cell has one strong owner less. -/
  count : s.strongCount t + 1 = e.store.strongCount t
  /-- The slot holds a weak reference now. -/
  weak : s.slot? c slot.text = some (.weak t)
  /-- That is a run, and nobody outside holds more or less than before. -/
  run : e.Leads hash (SlotOf (.ref c) slot) (e.now s e.hand)
  /-- In every later run, while the instance lives and as long as no act names the slot, it reads
  as a weak reference. -/
  later : ∀ {ts d}, (e.now s e.hand).Run hash ts d → (∀ u ∈ ts, ¬ u.act.Touches c slot.text) →
    d.store.alive c → ∀ k ∈ d.keys, k.text = slot.text → ReadsWeakly c t ts d k

/-- Weakening a slot that refers to `t`, by someone who holds the instance. -/
theorem weakened_slot (he : e.Exact) (hs : e.Sound hash label) (hrest : e.falling = [])
    (hc : 0 < e.hand (.cell c)) (hslot : slot ∈ e.keys)
    (ht : e.store.slot? c slot.text = some (.ref t)) :
    (∃ s, Weakened hash e c slot t s) ∧ ComesToActs := by
  obtain ⟨es, hes, hv⟩ := Store.exists_of_slot? ht
  have hproper := hs.entries c es hes
  have hkey := hs.keys slot hslot
  have hdone := Storage.weaken_of_ref hkey hproper hes hv
  have hrun : e.Leads hash (SlotOf (.ref c) slot)
      (e.now (Storage.weakenedStore e.store c es slot t) e.hand) := by
    have hlead : Leads hash _ _ _ := leads_weaken (f := e.hand) hrest hslot hes
    simp only [Storage.Operation.run, hdone] at hlead
    have hnone : holding (Storage.handedOut (Except.map (fun _ => Storage.Answer.nothing)
        (Except.ok () : Except Error Unit))) + e.hand = e.hand := zero_add _
    rwa [hnone] at hlead
  have hexact := hrun.exact he
  -- whoever holds the instance still does, so it is there
  have hlives : (Storage.weakenedStore e.store c es slot t).alive c :=
    (hexact.has_iff (x := .cell c) rfl).2 (Nat.add_pos_right _ (Nat.add_pos_right _ hc))
  have hweak := Storage.slot?_weakenedStore hkey hproper hes hlives
  -- the slot was an owner of what it refers to
  have hthere : e.store.has (.cell t) := by
    have hget := Entries.get?_eq hkey hproper
    rw [hv] at hget
    obtain ⟨k, hk⟩ := Entries.mem_of_get? hget
    exact he.covers.present_of_mem hes hk (.cell t) List.mem_cons_self
  have hcount : (Storage.weakenedStore e.store c es slot t).strongCount t + 1 =
      e.store.strongCount t := by
    have hpos : 0 < e.store.strongCount t := he.attended (.cell t) rfl hthere
    rw [Storage.strongCount_weakenedStore]
    omega
  obtain ⟨ts₀, hrun₀, -⟩ := id hrun
  obtain ⟨_, -, hs'⟩ := hs.run hrun₀
  have hold := hrun₀.ages.old (.cell t) (Store.oldIn_of_has hthere)
  exact ⟨⟨_, hdone, hcount, hweak, hrun, fun hr hno hcd k hk hname =>
    hr.readsWeakly hexact hs' hweak hold hno hcd hk hname⟩, comesToActs⟩

/-- The key of the slot of the example. -/
def pairKey : Key := ⟨⟨0, "x"⟩, Text.nameHash "x"⟩

/-- An estate with an instance whose slot refers to a cell; somebody holds the instance. -/
def pairEstate : Estate where
  store := (((({} : Store).newName "x").2.newCell (.scalar .undef)).2.newCell
    (.hash [(pairKey, .ref 0)])).2
  keys := [pairKey]
  hand := holding [.cell 1]

theorem leads_pairEstate : ({} : Estate).Leads Text.nameHash (fun _ _ => False) pairEstate := by
  have hkey : Leads Text.nameHash (fun _ _ => False) {} _ :=
    .of_act (a := .newKey "x") (allows_of_rest rfl (by simp) trivial) fun _ _ => False.elim
  let e : Estate := { keys := [pairKey] }
  have hcell : Leads Text.nameHash (fun _ _ => False) _ _ := leads_newCell (e := e) rfl
    (({} : Store).newName "x").2 (holding [.name 0]) (r := .scalar .undef)
    (by simp)
  have hhash : Leads Text.nameHash (fun _ _ => False) _ _ := leads_newCell (e := e) rfl
    ((({} : Store).newName "x").2.newCell (.scalar .undef)).2 0 (r := .hash [(pairKey, .ref 0)])
    fun es hes => by
      cases hes
      exact ⟨fun _ hp => List.mem_cons.2 (.inl (List.mem_singleton.1 hp ▸ rfl)), by simp⟩
  have hhand : holding [.cell 0] + holding [.name 0] =
      holding (Referent.hash [(pairKey, .ref 0)]).owned + 0 := by
    show _ = holding [.name 0, .cell 0] + 0
    rw [holding_cons (.name 0) [.cell 0], add_zero, add_comm]
  have hnone : holding (Referent.scalar .undef).owned = 0 := rfl
  rw [← hhand, add_zero] at hhash
  rw [hnone, zero_add] at hcell
  rw [after, add_zero] at hkey
  exact hkey.trans (hcell.trans hhash)

theorem weakened_slot_pairEstate : pairEstate.store.slot? 1 "x" = some (.ref 0) ∧
    ∃ s, Weakened Text.nameHash pairEstate 1 pairKey 0 s := by
  obtain ⟨ts, hr, -⟩ := leads_pairEstate
  obtain ⟨label, -, hs⟩ := (Sound.empty Text.nameHash fun _ => "").run hr
  have hslot : pairEstate.store.slot? 1 "x" = some (.ref 0) := by decide
  exact ⟨hslot, (weakened_slot (Exact.empty.run hr) hs rfl (by decide) List.mem_cons_self hslot).1⟩

end Estate

end MetaCache
