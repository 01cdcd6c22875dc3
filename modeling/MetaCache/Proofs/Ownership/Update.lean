import MetaCache.Proofs.Ownership.Release
import MetaCache.World
/-!
# New entries, slots and keys

What the other operations of the store do to coverage: a new entry starts with the one share that
its maker gets, a record that goes into a slot takes its shares along, and the one it replaces gives
its own back to whoever put it there.

* `Store.count_newCell`, `Store.count_newName`, `Store.count_newPayload`: new entries are counted;
  `Store.Covers.newCell`, `Store.Covers.newName`, `Store.Covers.newPayload`: and covered.
* `Store.Covers.writeCell`, `Store.Covers.setExtension`: what a cell is given.
* `Store.Covers.upgrade`: weak references.
* `World.Covers`: coverage of what the registry and the session hold besides.
* `World.Covers.key`, `World.sheds_key`: keys.
-/

namespace MetaCache

namespace Store

variable {s s' : Store} {f g : Holding}

/-- Coverage is kept if what is held grows no more than the counts do. -/
theorem Covers.transfer (h : s.Covers f)
    (hle : ∀ x, x.isStrong → s'.held x + g x + s.count x ≤ s.held x + f x + s'.count x) :
    s'.Covers g := by
  intro x hx
  have h1 := h x hx
  have h2 := hle x hx
  omega

theorem count_insert {α : Type} (t : Table α) (a : α) (j : Nat) (v : α → Nat) :
    (((t.insert a).find? j).map v).getD 0 =
      ((t.find? j).map v).getD 0 + if j = t.next then v a else 0 := by
  by_cases hj : j = t.next
  · subst hj
    simp [Table.find?_next]
  · rw [Table.find?_insert_of_ne _ _ hj, if_neg hj, Nat.add_zero]

theorem held_newCell (s : Store) (r : Referent) (x : Share) :
    (s.newCell r).2.held x = holding r.owned x + s.held x := by
  have hr : Cell.owned { referent := r } = r.owned := List.append_nil _
  have hi := Table.total_insert (fun e : Counted Cell => holding e.content.owned x) s.cells
    { content := { referent := r } }
  simp only [hr] at hi
  exact (congrArg (· + _) hi).trans (Nat.add_assoc _ _ _)

theorem count_newCell (s : Store) (r : Referent) (x : Share) :
    (s.newCell r).2.count x = s.count x + holding [.cell s.cells.next] x := by
  rw [holding_plain rfl]
  cases x with
  | cell d =>
    simp only [Share.cell.injEq]
    exact count_insert s.cells _ d Counted.strong
  | weakCell d =>
    refine (count_insert s.cells _ d Counted.weak).trans ?_
    simp only [reduceCtorEq, if_false, ite_self]
    rfl
  | _ => rfl

theorem held_newPayload (s : Store) (p : Payload) (x : Share) :
    (s.newPayload p).2.held x = holding p.owned x + s.held x := by
  have hi := Table.total_insert (fun e : Counted Payload => holding e.content.owned x)
    s.payloads { content := p }
  exact (congrArg (_ + ·) hi).trans (Nat.add_left_comm _ _ _)

theorem count_newPayload (s : Store) (p : Payload) (x : Share) :
    (s.newPayload p).2.count x = s.count x + holding [.payload s.payloads.next] x := by
  rw [holding_plain rfl]
  cases x with
  | payload q =>
    simp only [Share.payload.injEq]
    exact count_insert s.payloads _ q Counted.strong
  | weakPayload q =>
    refine (count_insert s.payloads _ q Counted.weak).trans ?_
    simp only [reduceCtorEq, if_false, ite_self]
    rfl
  | _ => rfl

theorem count_newName (s : Store) (text : String) (x : Share) :
    (s.newName text).2.count x = s.count x + holding [.name s.names.next] x := by
  rw [holding_plain rfl]
  cases x with
  | name n =>
    simp only [Store.newName, Share.name.injEq]
    simpa [count, nameCount] using count_insert s.names 1 n id
  | _ => rfl

/-- A new cell holds what its maker put into it. -/
theorem Covers.newCell {r : Referent} (h : s.Covers (holding r.owned + f)) :
    (s.newCell r).2.Covers (holding [.cell (s.newCell r).1] + f) := by
  refine h.transfer fun x _ => ?_
  rw [held_newCell, count_newCell]
  show _ + (holding [.cell s.cells.next] x + f x) + _ ≤ _ + (holding r.owned x + f x) + _
  omega

/-- A new name has one owner. -/
theorem Covers.newName (h : s.Covers f) (text : String) :
    (s.newName text).2.Covers (holding [.name (s.newName text).1.id] + f) := by
  refine h.transfer fun x _ => ?_
  rw [count_newName]
  show s.held x + (holding [.name s.names.next] x + f x) + _ ≤ _
  omega

/-- A new payload holds what its maker put into it. -/
theorem Covers.newPayload {p : Payload} (h : s.Covers (holding p.owned + f)) :
    (s.newPayload p).2.Covers (holding [.payload (s.newPayload p).1] + f) := by
  refine h.transfer fun x _ => ?_
  rw [held_newPayload, count_newPayload]
  show _ + (holding [.payload s.payloads.next] x + f x) + _ ≤ _ + (holding p.owned x + f x) + _
  omega

/-- What a record of a new structure holds is there. -/
theorem present_record (s : Store) (p : Payload) (generation : Nat) (governor : CellId) :
    ∀ o ∈ ({ payload := s.payloads.next, generation, governor } : Record).owned,
      (s.newPayload p).2.present o := by
  intro o ho
  rcases List.mem_cons.1 ho with rfl | ho
  · exact Option.isSome_iff_exists.2 ⟨_, Table.find?_insert_self s.payloads _⟩
  · rw [List.mem_singleton.1 ho]
    rfl

theorem count_writeCell (s : Store) (c : CellId) (k : Cell → Cell) (x : Share) :
    (s.writeCell c k).count x = s.count x := by
  cases x with
  | cell d | weakCell d =>
    refine (map_modify_getD s.cells c d _ _).trans ?_
    split
    · subst d; rfl
    · rfl
  | _ => rfl

theorem held_writeCell {c : CellId} {y : Cell} (hc : s.cell? c = some y) (k : Cell → Cell)
    (x : Share) :
    (s.writeCell c k).held x + holding y.owned x = s.held x + holding (k y).owned x := by
  obtain ⟨e, he, rfl⟩ := Option.map_eq_some_iff.1 hc
  have := Table.total_modify_add (fun e => holding e.content.owned x)
    (fun e => { e with content := k e.content }) he
  simp only [held, writeCell] at this ⊢
  omega

theorem writeCell_of_dead {c : CellId} (hc : s.cell? c = none) (k : Cell → Cell) :
    s.writeCell c k = s := by
  have hf : s.cells.find? c = none := Option.map_eq_none_iff.1 hc
  have : s.cells.modify c (fun e => { e with content := k e.content }) = s.cells := by
    simp only [Table.modify, Table.modifyEntries_of_lookup_eq_none hf]
  rw [writeCell, this]

theorem cell?_writeCell (s : Store) (c d : CellId) (k : Cell → Cell) :
    (s.writeCell c k).cell? d = if d = c then (s.cell? d).map k else s.cell? d := by
  rw [cell?, writeCell, Table.find?_modify]
  split
  · rw [Option.map_map, cell?, Option.map_map]
    rfl
  · rfl

/-- What a cell is given it takes from whoever writes it, who gets what it had. -/
theorem Covers.writeCell {c : CellId} {y : Cell} {k : Cell → Cell} (hc : s.cell? c = some y)
    {g : Holding} (h : s.Covers f)
    (hle : ∀ x, holding (k y).owned x + g x ≤ holding y.owned x + f x) :
    (s.writeCell c k).Covers g := by
  refine h.transfer fun x _ => ?_
  have := held_writeCell hc k x
  have := hle x
  rw [count_writeCell]
  omega

/-- A record that goes into a slot takes its shares along, and the one it replaces leaves its own
to whoever put it there. -/
theorem Covers.setExtension {c : CellId} {r : Option Record}
    (h : s.Covers (holding (ownedByRecord? r) + f)) :
    (s.setExtension c r).Covers (holding (ownedByRecord? (s.extension? c)) + f) := by
  cases hc : s.cell? c with
  | none =>
    rw [Store.setExtension, writeCell_of_dead hc, extension?, hc]
    rw [Option.bind_none, ownedByRecord?, holding_nil, zero_add]
    exact h.of_add
  | some y =>
    refine h.writeCell hc fun x => ?_
    rw [extension?, hc, Option.bind_some]
    simp only [Cell.owned, holding_append, Pi.add_apply]
    omega

theorem sheds_record (s : Store) (e : Event) : s.Sheds (s.record e) :=
  .of_eq rfl rfl (fun _ => rfl) fun _ => rfl

theorem sheds_newName (s : Store) (text : String) : s.Sheds (s.newName text).2 :=
  .of_eq rfl rfl (fun _ => rfl) fun _ => rfl

/-- A weak reference given back for a strong one, or for nothing. -/
theorem Covers.upgrade {v : Value} (h : s.Covers (holding v.owned + f)) :
    (s.upgrade v).2.Covers (holding (s.upgrade v).1.owned + f) := by
  cases v with
  | weak c =>
    simp only [Store.upgrade]
    split
    · rename_i hc
      refine Covers.release (f := holding [.cell c] + f) ?_
      rw [add_left_comm]
      exact h.retain fun o ho => by rw [List.mem_singleton.1 ho]; exact hc
    · exact h.of_add.mono fun x => Nat.le_of_eq (Nat.zero_add (f x))
  | _ => exact h

theorem sheds_upgrade (s : Store) (v : Value) : s.Sheds (s.upgrade v).2 := by
  cases v with
  | weak c =>
    simp only [Store.upgrade]
    split
    · exact (s.sheds_retain _).trans (sheds_release _ _)
    · exact .refl s
  | _ => exact .refl s

end Store

namespace KeyTable

variable {s : Store} {f : Holding}

theorem covers_sweepIfDue (t : KeyTable) (h : s.Covers f) : (t.sweepIfDue s).2.Covers f := by
  unfold sweepIfDue
  split <;> exact h

theorem sheds_sweepIfDue (t : KeyTable) (s : Store) : s.Sheds (t.sweepIfDue s).2 := by
  unfold sweepIfDue
  split
  · exact s.sheds_record _
  · exact .refl s

/-- A key asked for is a share of its name. -/
theorem covers_internInBucket (h : s.Covers f) (hash : UInt32) (name : String)
    (bucket : List SharedName) (t : KeyTable) :
    (t.internInBucket hash name bucket s).2.2.Covers
      (holding (t.internInBucket hash name bucket s).1.owned + f) := by
  simp only [internInBucket]
  split
  · rename_i n hn
    have hlive : s.nameAlive n := by
      have := List.mem_of_find?_eq_some hn
      simpa using (List.mem_filter.1 this).2
    exact h.retain fun o ho => by rw [List.mem_singleton.1 ho]; exact hlive
  · have := h.newName name
    split <;> exact this

theorem sheds_internInBucket (hash : UInt32) (name : String) (bucket : List SharedName)
    (t : KeyTable) (s : Store) : s.Sheds (t.internInBucket hash name bucket s).2.2 := by
  simp only [internInBucket]
  split
  · exact s.sheds_retain _
  · split
    · exact s.sheds_newName name
    · exact (s.sheds_newName name).trans (Store.sheds_record _ _)

theorem covers_intern (h : s.Covers f) (hash : String → UInt32) (name : String) (t : KeyTable) :
    (t.intern hash name s).2.2.Covers (holding (t.intern hash name s).1.owned + f) := by
  simp only [intern]
  split
  · exact covers_internInBucket (covers_sweepIfDue t h) _ _ _ _
  · exact Store.Covers.newName (covers_sweepIfDue t h) name

theorem sheds_intern (hash : String → UInt32) (name : String) (t : KeyTable) (s : Store) :
    s.Sheds (t.intern hash name s).2.2 := by
  simp only [intern]
  split
  · exact (sheds_sweepIfDue t s).trans (sheds_internInBucket _ _ _ _ _)
  · exact ((sheds_sweepIfDue t s).trans (Store.sheds_record _ _)).trans (Store.sheds_newName _ name)

end KeyTable

namespace World

variable {w : World} {f : Holding}

/-- What the host's registry and the variables of the script own. -/
def roots (w : World) : List Owned :=
  (w.registry.classes.map fun e => .cell e.2) ++ (w.registry.methods.map fun e => .cell e.2) ++
    w.session.vars.flatMap fun v => v.2.owned

/-- The store covers what registry and session hold, and `f` besides. -/
def Covers (w : World) (f : Holding) : Prop :=
  w.store.Covers (holding w.roots + f)

theorem Covers.of_add {g : Holding} (h : w.Covers (f + g)) : w.Covers g := by
  rw [Covers, add_left_comm] at h
  exact Store.Covers.of_add h

theorem Covers.alive (h : w.Covers f) {c : CellId} (hc : 0 < f (.cell c)) : w.store.alive c :=
  Store.Covers.alive h (Nat.add_pos_right _ (Nat.add_pos_right _ hc))

/-- An operation of the store, next to what registry and session hold. -/
theorem Covers.withStore {g g' : Holding} {s' : Store} (h : w.Covers (g + f))
    (hs : ∀ k, w.store.Covers (g + k) → s'.Covers (g' + k)) :
    World.Covers { w with store := s' } (g' + f) := by
  rw [Covers, add_left_comm] at h ⊢
  exact hs _ h

theorem Covers.release {os : List Owned} (h : w.Covers (holding os + f)) :
    (w.onStore (·.release os)).Covers f := by
  have hs : (w.onStore (·.release os)).Covers (0 + f) := h.withStore fun k hk => by
    rw [zero_add]
    exact hk.release
  rwa [zero_add] at hs

theorem Covers.retain {os : List Owned} (h : w.Covers f) (ho : ∀ o ∈ os, w.store.present o) :
    (w.onStore (·.retain os)).Covers (holding os + f) := by
  refine Covers.withStore (g := 0) (by rwa [zero_add]) fun k hk => ?_
  rw [zero_add] at hk
  exact hk.retain ho

/-- A key is a share of its name. -/
theorem Covers.key (h : w.Covers f) (name : String) :
    (w.key name).2.Covers (holding (w.key name).1.owned + f) := by
  unfold World.key
  split
  · show Store.Covers _ (holding w.roots + (_ + f))
    rw [add_left_comm]
    exact KeyTable.covers_intern h _ _ _
  · show Store.Covers _ (holding w.roots + (_ + f))
    rw [add_left_comm]
    exact Store.Covers.newName (s := w.store) h name

theorem sheds_key (w : World) (name : String) : w.store.Sheds (w.key name).2.store := by
  unfold World.key
  split
  · exact KeyTable.sheds_intern _ _ _ _
  · exact Store.sheds_newName w.store name

end World

end MetaCache
