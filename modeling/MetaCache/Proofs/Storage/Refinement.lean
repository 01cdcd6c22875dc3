import MetaCache.Proofs.Storage.Keys
/-!
# The storage is a map from names to values

However instances are created, read, written and weakened, whatever keys name their slots, and
whatever else goes on with shares and cells between the operations, every operation answers what it
comes to on the map that the instance is, and leaves the maps that it comes to.

* `Storage.Bench`, `Storage.Bench.Reached`: a store with its keys and with the instances as maps,
  and the steps by which it comes about.
* `Store.Aside`: what may go on between operations; `Store.Aside.retain`, `Store.Aside.release`,
  `Store.Aside.newCell`.
* `Storage.Bench.Sound`: names and keys are explained by one labelling, and the maps are those of
  the store; `Storage.Bench.Reached.sound`.
* `Storage.refines_maps`: what every operation then does.
-/

namespace MetaCache

/-- The slots of the instance in a cell, if it is a hash. -/
def Store.slots? (s : Store) (c : CellId) : Option Slots :=
  match s.referent? c with
  | some (.hash es) => some (Entries.slots es)
  | _ => none

/-- What is in the slot of that name of the instance in a cell. -/
def Store.slot? (s : Store) (c : CellId) (name : String) : Option Value :=
  (s.slots? c).bind (· name)

theorem Store.slot?_congr {s s' : Store} {c : CellId} (h : s'.cell? c = s.cell? c)
    (name : String) : s'.slot? c name = s.slot? c name := by
  rw [slot?, slot?, slots?, slots?, referent?, referent?, h]

/-- What may go on between the operations on slots: shares are taken and given back, and cells are
made, but no hash that lives on is written, and none is made with entries. -/
structure Store.Aside (s s' : Store) : Prop where
  cells : s.cells.next ≤ s'.cells.next
  names : s.names.next ≤ s'.names.next
  alive : ∀ c < s.cells.next, s'.alive c → s.alive c
  hash : ∀ c < s.cells.next, s'.alive c → ∀ es,
    s'.referent? c = some (.hash es) ↔ s.referent? c = some (.hash es)
  fresh : ∀ c, s.cells.next ≤ c → ∀ es, s'.referent? c = some (.hash es) → es = []
  attended : s.Attended → s'.Attended

namespace Store.Aside

variable {s s' : Store}

/-- Entries that go and are counted anew. -/
theorem of_sheds (h : s.Sheds s') (hn : s'.names.next = s.names.next)
    (hat : s.Attended → s'.Attended) : s.Aside s' where
  cells := Nat.le_of_eq h.cells_next.symm
  names := Nat.le_of_eq hn.symm
  alive c _ := h.alive
  hash c _ hc es := by rw [referent?, referent?, h.cell?_eq hc]
  fresh c hc es hes := by
    have hlt := lt_next_of_alive (alive_iff_referent?.2 ⟨_, hes⟩)
    exact absurd hlt (Nat.not_lt_of_le (h.cells_next ▸ hc))
  attended := hat

theorem retain (s : Store) (os : List Owned) : s.Aside (s.retain os) :=
  of_sheds (s.sheds_retain os) (s.names_next_retain os) (·.retain os)

theorem release (s : Store) (os : List Owned) : s.Aside (s.release os) :=
  of_sheds (s.sheds_release os) (s.names_next_release os) (·.release os)

end Store.Aside

/-! ## New cells -/

namespace Store

theorem Aside.newCell (s : Store) {r : Referent} (hr : ∀ es, r = .hash es → es = []) :
    s.Aside (s.newCell r).2 where
  cells := Nat.le_succ _
  names := Nat.le_refl _
  alive c hc h := (s.alive_newCell_of_ne r (Nat.ne_of_lt hc)).symm.trans h
  hash c hc _ es := by rw [referent?, referent?, s.cell?_newCell_of_ne r (Nat.ne_of_lt hc)]
  fresh c hc es hes := by
    rcases Nat.lt_or_eq_of_le hc with hlt | rfl
    · obtain ⟨x, hx, -⟩ := Option.map_eq_some_iff.1 hes
      rw [s.cell?_newCell_of_ne r (Nat.ne_of_gt hlt)] at hx
      obtain ⟨e, he, -⟩ := Option.map_eq_some_iff.1 hx
      exact absurd (Table.lt_next_of_find? he) (Nat.not_lt_of_le hc)
    · rw [referent?_newCell, if_pos rfl] at hes
      exact hr es (Option.some.inj hes)
  attended h := h.newCell r

end Store

namespace Storage

variable {hash : String → UInt32} {label label' : NameId → String} {s s' : Store} {H : Heap}

/-! ## Instances and their maps -/

/-- The entries of all hashes are maps from names to values, and these are the maps of `H`. -/
structure Stored (hash : String → UInt32) (label : NameId → String) (s : Store) (H : Heap) :
    Prop where
  entries : ∀ c es, s.referent? c = some (.hash es) →
    Entries.Proper hash label s.names.next es
  slots : ∀ c, s.alive c → H c = s.slots? c
  attended : s.Attended

namespace Stored

/-- Entries that go, and identities of names that are given. -/
theorem shed (h : Stored hash label s H) (hs : s.Sheds s') (hn : s.names.next ≤ s'.names.next)
    (hl : ∀ i < s.names.next, label' i = label i) (hat : s'.Attended) :
    Stored hash label' s' H where
  entries c es hes := by
    rw [Store.referent?, hs.cell?_eq (Store.alive_iff_referent?.2 ⟨_, hes⟩)] at hes
    exact (h.entries c es hes).mono hn hl
  slots c hc := by
    rw [h.slots c (hs.alive hc), Store.slots?, Store.slots?, Store.referent?, Store.referent?,
      hs.cell?_eq hc]
  attended := hat

/-- What goes on aside leaves the maps of the instances that live on. -/
theorem aside (h : Stored hash label s H) (ha : s.Aside s') :
    Stored hash label s' fun c => if c < s.cells.next then H c else s'.slots? c where
  entries c es hes := by
    by_cases hc : c < s.cells.next
    · have hold := (ha.hash c hc (Store.alive_iff_referent?.2 ⟨_, hes⟩) es).1 hes
      exact (h.entries c es hold).mono ha.names fun _ _ => rfl
    · rw [ha.fresh c (Nat.le_of_not_lt hc) es hes]
      exact Entries.proper_nil
  slots c hc := by
    split
    · rename_i hlt
      have hsame := ha.hash c hlt hc
      rw [h.slots c (ha.alive c hlt hc), Store.slots?, Store.slots?]
      split
      · rename_i es hes
        rw [(hsame es).2 hes]
      · rename_i hne
        split
        · rename_i es hes
          exact absurd ((hsame es).1 hes) (hne es)
        · rfl
    · rfl
  attended := ha.attended h.attended

/-- A hash that is written. -/
theorem written (h : Stored hash label s H) {c : CellId} (hc : s.alive c)
    {es : List (Key × Value)} (hes : Entries.Proper hash label s.names.next es) :
    Stored hash label (s.setReferent c (.hash es)) (H.assign c (Entries.slots es)) where
  entries d es' hes' := by
    rw [Store.referent?_setReferent] at hes'
    split at hes'
    · obtain ⟨r, -, hr⟩ := Option.map_eq_some_iff.1 hes'
      cases hr
      exact hes
    · exact h.entries d es' hes'
  slots d hd := by
    rw [Store.slots?, Store.referent?_setReferent, Heap.assign]
    split
    · rename_i hdc
      obtain ⟨r, hr⟩ := Store.alive_iff_referent?.1 hc
      rw [hdc, hr]
      rfl
    · rw [Store.setReferent, Store.alive_writeCell] at hd
      exact h.slots d hd
  attended := h.attended.writeCell _ _

/-- A new instance. -/
theorem created (h : Stored hash label s H) :
    Stored hash label (create s).2 (H.assign s.cells.next fun _ => none) where
  entries c es hes := by
    have hes : (s.newCell (.hash [])).2.referent? c = some (.hash es) := hes
    rw [Store.referent?_newCell] at hes
    split at hes
    · cases hes
      exact Entries.proper_nil
    · exact h.entries c es hes
  slots c hc := by
    have hc : (s.newCell (.hash [])).2.alive c := hc
    show _ = (s.newCell (.hash [])).2.slots? c
    rw [Store.slots?, Store.referent?_newCell, Heap.assign]
    split
    · rfl
    · rename_i hold
      rw [s.alive_newCell_of_ne _ hold] at hc
      exact h.slots c hc
  attended := h.attended.newCell _

/-- The instance that a value refers to is the one whose hash it refers to. -/
theorem at?_eq (h : Stored hash label s H) {inst : Value}
    (hi : ∀ c, inst = .ref c → s.alive c) :
    H.at? inst = (s.hash? inst).map fun e => (e.1, Entries.slots e.2) := by
  cases inst with
  | ref c =>
    simp only [Heap.at?, Value.strong?, Option.bind_some, h.slots c (hi c rfl), Store.slots?,
      Store.hash?, Option.bind_eq_bind]
    cases hr : s.referent? c with
    | none => rfl
    | some r => cases r <;> rfl
  | _ => rfl

end Stored

/-! ## Sequences of operations -/

/-- A store with its key table and the keys made so far, and the instances as maps. -/
structure Bench where
  store : Store := {}
  table : KeyTable := {}
  keys : List Key := []
  heap : Heap := fun _ => none

namespace Bench

variable (hash : String → UInt32)

/-- A key of a new name is made. -/
def makeKey (b : Bench) (name : String) : Bench :=
  { b with
    store := (b.store.newName name).2
    keys := ⟨(b.store.newName name).1, hash name⟩ :: b.keys }

/-- The table is asked for the key of a name. -/
def internKey (b : Bench) (name : String) : Bench :=
  { b with
    store := (b.table.intern hash name b.store).2.2
    table := (b.table.intern hash name b.store).2.1
    keys := (b.table.intern hash name b.store).1 :: b.keys }

/-- A key is made from the shared name of another one. -/
def shareKey (b : Bench) (k : Key) : Bench :=
  { b with
    store := b.store.retain k.owned
    keys := ⟨k.name, hash k.text⟩ :: b.keys }

/-- The table is swept. -/
def sweep (b : Bench) : Bench :=
  { b with
    store := (b.table.sweep b.store).2
    table := (b.table.sweep b.store).1 }

/-- An instance is created. -/
def addInstance (b : Bench) : Bench :=
  { b with
    store := (create b.store).2
    heap := b.heap.assign b.store.cells.next fun _ => none }

/-- An operation is done to a slot of an instance. -/
def operate (b : Bench) (inst : Value) (slot : Key) (op : Operation) : Bench :=
  { b with
    store := (op.run inst slot b.store).2
    heap := (b.heap.act b.store.scene inst slot.text op).2 }

/-- Something goes on aside, by which the store comes to be `s'`. -/
def goAside (b : Bench) (s' : Store) : Bench :=
  { b with
    store := s'
    heap := fun c => if c < b.store.cells.next then b.heap c else s'.slots? c }

/-- How a bench comes about. Operations are done to whatever is given for an instance, as long as
what it refers to is there. -/
inductive Reached : Bench → Prop
  | start : Reached {}
  | makeKey {b : Bench} (name : String) : Reached b → Reached (b.makeKey hash name)
  | internKey {b : Bench} (name : String) : Reached b → Reached (b.internKey hash name)
  | shareKey {b : Bench} {k : Key} : Reached b → k ∈ b.keys → Reached (b.shareKey hash k)
  | sweep {b : Bench} : Reached b → Reached b.sweep
  | addInstance {b : Bench} : Reached b → Reached b.addInstance
  | operate {b : Bench} (inst : Value) (slot : Key) (op : Operation) : Reached b →
    (∀ c, inst = .ref c → b.store.alive c) → slot ∈ b.keys → Reached (b.operate inst slot op)
  | goAside {b : Bench} {s' : Store} : Reached b → b.store.Aside s' → Reached (b.goAside s')

variable {hash}

/-- One labelling explains all keys and names, and the maps are those of the store. -/
structure Sound (hash : String → UInt32) (label : NameId → String) (b : Bench) : Prop where
  keys : ∀ k ∈ b.keys, k.Proper hash label b.store.names.next
  table : ∀ n ∈ b.table.names, n.Known label b.store.names.next
  stored : Stored hash label b.store b.heap

/-- What an operation on a slot does. -/
structure Serves (b : Bench) (inst : Value) (slot : Key) (op : Operation) : Prop where
  /-- It answers what it comes to on the map. -/
  answer : (op.run inst slot b.store).1 = (b.heap.act b.store.scene inst slot.text op).1
  /-- No value handed out is a weak reference. -/
  strong : ∀ a, (op.run inst slot b.store).1 = .ok a → ∀ v ∈ a.values, v.isWeak = false
  /-- It leaves the maps that it comes to. -/
  after : ∀ c, (op.run inst slot b.store).2.alive c →
    (b.heap.act b.store.scene inst slot.text op).2 c = (op.run inst slot b.store).2.slots? c
  /-- Other cells that are still there are as they were. -/
  others : ∀ c, (op.run inst slot b.store).2.alive c → inst ≠ .ref c →
    (op.run inst slot b.store).2.cell? c = b.store.cell? c
  /-- Other slots of the instance are as they were. -/
  named : ∀ c, (op.run inst slot b.store).2.alive c → ∀ name, inst ≠ .ref c ∨ name ≠ slot.text →
    (op.run inst slot b.store).2.slot? c name = b.store.slot? c name
  /-- A failure changes nothing but that what was given away is gone, which a caller who keeps a
  copy does not notice. -/
  failed : ∀ e, (op.run inst slot b.store).1 = .error e →
    (op.run inst slot b.store).2 = b.store.release op.given ∧
      (b.store.retain op.given).release op.given = b.store
  /-- Where weakening is switched off it succeeds, whatever the instance, and changes nothing. -/
  ignored : op = .weaken .ignore → op.run inst slot b.store = (.ok .nothing, b.store)

/-- What creating an instance does. -/
structure Creates (b : Bench) : Prop where
  fresh : (create b.store).1 = .ref b.store.cells.next ∧ b.store.alive b.store.cells.next = false
  empty : (create b.store).2.slots? b.store.cells.next = some fun _ => none
  others : ∀ c, c ≠ b.store.cells.next → (create b.store).2.cell? c = b.store.cell? c

variable {b : Bench}

namespace Sound

variable {inst : Value} {slot : Key} {op : Operation}

/-- An operation that does not come to an instance. -/
theorem untouched (h : b.Sound hash label) {a : Except Error Answer}
    (hrun : op.run inst slot b.store = (a, b.store.release op.given))
    (hact : b.heap.act b.store.scene inst slot.text op = (a, b.heap)) :
    Stored hash label (op.run inst slot b.store).2
        (b.heap.act b.store.scene inst slot.text op).2 ∧
      (op.run inst slot b.store).2.names.next = b.store.names.next ∧ b.Serves inst slot op := by
  have hsheds := b.store.sheds_release op.given
  have hn := b.store.names_next_release op.given
  have hback : (b.store.retain op.given).release op.given = b.store := by
    cases op with
    | set v => exact h.stored.attended.release_retain v
    | _ => exact Store.release_nil b.store
  have hstored : Stored hash label (b.store.release op.given) b.heap :=
    h.stored.shed hsheds (Nat.le_of_eq hn.symm) (fun _ _ => rfl)
      (h.stored.attended.release op.given)
  have hsame : ∀ c, (b.store.release op.given).alive c →
      (b.store.release op.given).cell? c = b.store.cell? c := fun c hc => hsheds.cell?_eq hc
  have ha : (op.run inst slot b.store).1 = (b.heap.act b.store.scene inst slot.text op).1 := by
    rw [hrun, hact]
  have hstrong : ∀ x, (op.run inst slot b.store).1 = .ok x → ∀ v ∈ x.values, v.isWeak = false :=
    fun x hx => Heap.strong_of_act (ha ▸ hx)
  refine ⟨?_, ?_, ha, hstrong, ?_, ?_, ?_, ?_, fun h => h ▸ rfl⟩
  · rw [hrun, hact]
    exact hstored
  · rw [hrun]
    exact hn
  · rw [hrun, hact]
    exact hstored.slots
  · rw [hrun]
    exact fun c hc _ => hsame c hc
  · rw [hrun]
    exact fun c hc name _ => Store.slot?_congr (hsame c hc) name
  · rw [hrun]
    exact fun _ _ => ⟨rfl, hback⟩

/-- An operation that comes to an instance. -/
theorem reached (h : b.Sound hash label) (he : op.early? slot.text = none) {c : CellId}
    {es : List (Key × Value)} (hc : b.store.referent? c = some (.hash es)) (hs : slot ∈ b.keys) :
    Stored hash label (op.run (.ref c) slot b.store).2
        (b.heap.act b.store.scene (.ref c) slot.text op).2 ∧
      (op.run (.ref c) slot b.store).2.names.next = b.store.names.next ∧
      b.Serves (.ref c) slot op := by
  obtain ⟨es', hp⟩ := performs (h.keys slot hs) (h.stored.entries c es hc) hc he
  have halive := Store.alive_iff_referent?.2 ⟨_, hc⟩
  have hact : b.heap.act b.store.scene (.ref c) slot.text op =
      ((op.act b.store.scene slot.text (Entries.slots es slot.text)).1,
        b.heap.assign c (Entries.slots es')) := by
    have hat : b.heap.at? (.ref c) = some (c, Entries.slots es) := by
      rw [h.stored.at?_eq fun d hd => by cases hd; exact halive, hash?_of_referent? hc]
      rfl
    rw [Heap.act, he, hp.slots]
    simp only [hat]
  have hstored : Stored hash label (op.run (.ref c) slot b.store).2
      (b.heap.assign c (Entries.slots es')) :=
    (h.stored.written halive hp.proper).shed hp.sheds (Nat.le_of_eq hp.names.symm)
      (fun _ _ => rfl) (hp.attended h.stored.attended)
  have ha : (op.run (.ref c) slot b.store).1 =
      (b.heap.act b.store.scene (.ref c) slot.text op).1 := by
    rw [hact]
    exact hp.answer
  have hothers : ∀ d, (op.run (.ref c) slot b.store).2.alive d → Value.ref c ≠ .ref d →
      (op.run (.ref c) slot b.store).2.cell? d = b.store.cell? d := by
    intro d hd hne
    rw [hp.sheds.cell?_eq hd, Store.setReferent, Store.cell?_writeCell,
      if_neg fun hdc => hne (congrArg Value.ref hdc.symm)]
  refine ⟨by rw [hact]; exact hstored, hp.names, ha, fun x hx => Heap.strong_of_act (ha ▸ hx),
    by rw [hact]; exact hstored.slots, hothers, ?_, ?_, fun h => h ▸ rfl⟩
  · intro d hd name hne
    by_cases hdc : Value.ref c = .ref d
    · cases hdc
      have hname : name ≠ slot.text := hne.resolve_left fun hn => hn rfl
      rw [Store.slot?, ← hstored.slots c hd, Store.slot?, ← h.stored.slots c halive, Heap.assign,
        if_pos rfl, hp.slots, h.stored.slots c halive, Store.slots?, hc]
      exact Slots.assign_of_ne _ hname _
    · exact Store.slot?_congr (hothers d hd hdc) name
  · intro e hfail
    obtain ⟨hsame, hgiven⟩ := hp.failed e hfail
    rw [hsame, hgiven]
    exact ⟨(Store.release_nil b.store).symm, Store.release_nil b.store⟩

/-- What an operation on a slot leaves is again in order. -/
theorem performed (h : b.Sound hash label) (op : Operation)
    (hi : ∀ c, inst = .ref c → b.store.alive c) (hs : slot ∈ b.keys) :
    Stored hash label (op.run inst slot b.store).2
        (b.heap.act b.store.scene inst slot.text op).2 ∧
      (op.run inst slot b.store).2.names.next = b.store.names.next ∧ b.Serves inst slot op := by
  cases he : op.early? slot.text with
  | some a =>
    obtain ⟨hrun, hgiven⟩ := run_of_early inst b.store he
    refine h.untouched (a := a) ?_ ?_
    · rw [hrun, hgiven, Store.release_nil]
    · rw [Heap.act, he]
  | none =>
    cases hh : b.store.hash? inst with
    | none =>
      refine h.untouched (run_of_stranger he hh) ?_
      have hat := h.stored.at?_eq hi
      rw [hh] at hat
      rw [Heap.act, he]
      simp only [hat, Option.map_none]
      rfl
    | some e =>
      obtain ⟨c, es⟩ := e
      obtain ⟨rfl, hc⟩ := Store.hash?_eq_some hh
      exact h.reached he hc hs

/-- Keys and names that were known when names are given on. -/
theorem keys_mono (h : b.Sound hash label) {bound : NameId} (hle : b.store.names.next ≤ bound)
    (hl : ∀ i < b.store.names.next, label' i = label i) :
    (∀ k ∈ b.keys, k.Proper hash label' bound) ∧ ∀ n ∈ b.table.names, n.Known label' bound :=
  ⟨fun k hk => (h.keys k hk).mono hle hl, fun n hn => (h.table n hn).mono hle hl⟩

end Sound

/-- However a bench came about, it is in order. -/
theorem Reached.sound (h : b.Reached hash) : ∃ label, b.Sound hash label := by
  induction h with
  | start =>
    have hstored : Stored hash (fun _ => "") {} fun _ => none :=
      { entries := fun _ _ h => by cases h
        slots := fun _ h => by cases h
        attended := .empty }
    exact ⟨fun _ => "", fun _ hk => (List.not_mem_nil hk).elim,
      fun _ hn => (List.not_mem_nil hn).elim, hstored⟩
  | @makeKey b name _ ih =>
    obtain ⟨label, h⟩ := ih
    have hagree : ∀ i < b.store.names.next,
        Function.update label b.store.names.next name i = label i :=
      fun _ hi => update_of_lt label hi name
    obtain ⟨hkeys, htable⟩ := h.keys_mono (Nat.le_succ _) hagree
    exact ⟨Function.update label b.store.names.next name,
      List.forall_mem_cons.2 ⟨Key.proper_newName hash label b.store name, hkeys⟩, htable,
      h.stored.shed (b.store.sheds_newName name) (Nat.le_succ _) hagree
        (h.stored.attended.newName name)⟩
  | @internKey b name _ ih =>
    obtain ⟨label, h⟩ := ih
    obtain ⟨label', hi⟩ := KeyTable.interned hash h.table name
    obtain ⟨hkeys, -⟩ := h.keys_mono hi.le hi.agrees
    exact ⟨label', List.forall_mem_cons.2 ⟨hi.key, hkeys⟩, hi.table,
      h.stored.shed (KeyTable.sheds_intern hash name b.table b.store) hi.le hi.agrees
        (KeyTable.attended_intern h.stored.attended name b.table)⟩
  | @shareKey b k _ hk ih =>
    obtain ⟨label, h⟩ := ih
    have hn := b.store.names_next_retain k.owned
    obtain ⟨hkeys, htable⟩ := h.keys_mono (Nat.le_of_eq hn.symm) fun _ _ => rfl
    exact ⟨label, List.forall_mem_cons.2 ⟨⟨(hkeys k hk).known, rfl⟩, hkeys⟩, htable,
      h.stored.shed (b.store.sheds_retain _) (Nat.le_of_eq hn.symm) (fun _ _ => rfl)
        (h.stored.attended.retain _)⟩
  | @sweep b _ ih =>
    obtain ⟨label, h⟩ := ih
    exact ⟨label, h.keys, fun n hn => h.table n (KeyTable.mem_names_sweep hn),
      h.stored.shed (b.store.sheds_record _) (Nat.le_refl _) (fun _ _ => rfl) h.stored.attended⟩
  | addInstance _ ih =>
    obtain ⟨label, h⟩ := ih
    exact ⟨label, h.keys, h.table, h.stored.created⟩
  | @operate b inst slot op _ hi hs ih =>
    obtain ⟨label, h⟩ := ih
    obtain ⟨hstored, hn, -⟩ := h.performed op hi hs
    obtain ⟨hkeys, htable⟩ := h.keys_mono (Nat.le_of_eq hn.symm) fun _ _ => rfl
    exact ⟨label, hkeys, htable, hstored⟩
  | goAside _ ha ih =>
    obtain ⟨label, h⟩ := ih
    obtain ⟨hkeys, htable⟩ := h.keys_mono ha.names fun _ _ => rfl
    exact ⟨label, hkeys, htable, h.stored.aside ha⟩

theorem creates (b : Bench) : b.Creates where
  fresh := ⟨rfl, b.store.not_alive_next⟩
  empty := by
    show (b.store.newCell (.hash [])).2.slots? b.store.cells.next = _
    rw [Store.slots?, Store.referent?_newCell, if_pos rfl]
    rfl
  others c hc := b.store.cell?_newCell_of_ne _ hc

end Bench

/-- However instances are created and their slots operated on, by whatever keys and with whatever
going on aside: the instances that live are the maps that the operations so far make them, keys
denote one slot exactly if their names are equal, a new instance has no slots, and every operation
answers what it comes to on the map, hands out no weak reference, changes the named slot of the
named instance alone, and changes nothing if it fails. -/
theorem refines_maps {hash : String → UInt32} {b : Bench} (h : b.Reached hash) :
    (∀ c, b.store.alive c → b.heap c = b.store.slots? c) ∧
    (∀ k ∈ b.keys, ∀ k' ∈ b.keys, k.sameSlot k' ↔ k.text = k'.text) ∧
    b.Creates ∧
    ∀ inst, (∀ c, inst = .ref c → b.store.alive c) → ∀ slot ∈ b.keys, ∀ op,
      b.Serves inst slot op := by
  obtain ⟨label, hsound⟩ := h.sound
  refine ⟨hsound.stored.slots, fun k hk k' hk' => ?_, b.creates, fun inst hi slot hs op => ?_⟩
  · exact Key.sameSlot_iff (hsound.keys k hk) (hsound.keys k' hk')
  · exact (hsound.performed op hi hs).2.2

/-! ## A referent that dies -/

/-- A key whose name no other key shares. -/
def loneKey : Key := ⟨⟨0, "peer"⟩, 7⟩

/-- The key of the same name from the table. -/
def tableKey : Key := ⟨⟨1, "peer"⟩, 7⟩

/-- An instance in cell 0, an array in cell 1, and two keys of one name, in a world in which all
names have one hash. -/
def peerBench : Bench :=
  (((Bench.addInstance {}).goAside ((create {}).2.newCell (.array [])).2).makeKey
    (fun _ => 7) "peer").internKey (fun _ => 7) "peer"

/-- The instance refers to the array, weakly. -/
def weakenedBench : Bench :=
  (peerBench.operate (.ref 0) loneKey (.set (.ref 1))).operate (.ref 0) tableKey (.weaken .weaken)

/-- The array is gone. -/
def bereftBench : Bench :=
  weakenedBench.goAside (weakenedBench.store.release [.cell 1])

theorem reached_bereftBench : bereftBench.Reached fun _ => 7 := by
  have hpeer : peerBench.Reached fun _ => 7 :=
    .internKey _ (.makeKey _ (.goAside (.addInstance .start)
      (.newCell _ fun es h => by cases h)))
  have hset := hpeer.operate (.ref 0) loneKey (.set (.ref 1))
    (fun c h => by cases h; decide +kernel) (by decide +kernel)
  have hweakened : weakenedBench.Reached fun _ => 7 :=
    hset.operate (.ref 0) tableKey (.weaken .weaken)
      (fun c h => by cases h; decide +kernel) (by decide +kernel)
  exact hweakened.goAside (.release _ _)

/-- Reading the slot then does what the theorem says: it finds nothing defined. -/
theorem refines_maps_bereftBench :
    (bereftBench.Reached fun _ => 7) ∧ bereftBench.Serves (.ref 0) loneKey .get ∧
      (Operation.run .get (.ref 0) loneKey bereftBench.store).1.toOption =
        some (.found (some .undef)) := by
  obtain ⟨-, -, -, hserves⟩ := refines_maps reached_bereftBench
  have hget := hserves (.ref 0) (fun c h => by cases h; decide +kernel) loneKey
    (by decide +kernel) .get
  refine ⟨reached_bereftBench, hget, ?_⟩
  rw [hget.answer]
  decide +kernel

end Storage

end MetaCache
