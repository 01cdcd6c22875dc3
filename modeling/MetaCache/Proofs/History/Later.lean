import MetaCache.Lookup
import MetaCache.Proofs.Ownership.Update
/-!
# Worlds one after another

Of two worlds in a run the later one has the cells and the payloads of the earlier one, less those
that are gone: no identity is used again, no payload changes, and no generation goes back. What the
cache does on its own leaves every referent as it is, and writes one extension slot at most.

* `Host.Orderly`: what a host promises about its classes.
* `Host.Later`, `Host.Calm`: two worlds of a run, and two worlds between which no slot was written.
* `Store.Keeps`: the same referents; `Host.later_of_keeps`.
* `Store.referent?_newCell`, `Store.extension?_newCell`: what a new cell leaves as it is.
* `World.extension?_discard`, `World.extension?_publish`: the slot that an operation writes.
-/

namespace MetaCache

namespace Store

variable {s s' s'' : Store}

/-- Cells may be gone and payloads may be gone or new, but no referent and no payload that was there
has changed. -/
structure Keeps (s s' : Store) : Prop where
  cells_next : s'.cells.next = s.cells.next
  payloads_next : s.payloads.next ≤ s'.payloads.next
  referent? : ∀ c x, s'.referent? c = some x → s.referent? c = some x
  payload? : ∀ p x, p < s.payloads.next → s'.payload? p = some x → s.payload? p = some x

namespace Keeps

theorem trans (h : s.Keeps s') (h' : s'.Keeps s'') : s.Keeps s'' where
  cells_next := h'.cells_next.trans h.cells_next
  payloads_next := Nat.le_trans h.payloads_next h'.payloads_next
  referent? c x hx := h.referent? c x (h'.referent? c x hx)
  payload? p x hp hx :=
    h.payload? p x hp (h'.payload? p x (Nat.lt_of_lt_of_le hp h.payloads_next) hx)

end Keeps

theorem Sheds.keeps (h : s.Sheds s') : s.Keeps s' where
  cells_next := h.cells_next
  payloads_next := Nat.le_of_eq h.payloads_next.symm
  referent? c x hx := by
    obtain ⟨y, hy, rfl⟩ := Option.map_eq_some_iff.1 hx
    exact Option.map_eq_some_iff.2 ⟨y, h.cell? c y hy, rfl⟩
  payload? p x _ hx := h.payload? p x hx

theorem alive_iff_referent? {c : CellId} : s.alive c ↔ ∃ x, s.referent? c = some x := by
  rw [alive_iff_cell?]
  simp only [referent?, Option.map_eq_some_iff]
  exact ⟨fun ⟨x, hx⟩ => ⟨_, x, hx, rfl⟩, fun ⟨_, x, hx, _⟩ => ⟨x, hx⟩⟩

theorem lt_next_of_alive {c : CellId} (h : s.alive c) : c < s.cells.next := by
  obtain ⟨e, he⟩ := Option.isSome_iff_exists.1 h
  exact Table.lt_next_of_find? he

theorem extension?_of_dead {c : CellId} (h : ¬ s.alive c) : s.extension? c = none := by
  cases hx : s.cell? c with
  | none => rw [extension?, hx, Option.bind_none]
  | some x => exact absurd (alive_iff_cell?.2 ⟨x, hx⟩) h

/-- A cell whose slot is filled is there. -/
theorem alive_of_extension? {c : CellId} {r : Record} (h : s.extension? c = some r) :
    s.alive c := by
  by_contra hdead
  rw [extension?_of_dead hdead] at h
  cases h

theorem Keeps.alive (h : s.Keeps s') {c : CellId} (hc : s'.alive c) : s.alive c := by
  obtain ⟨x, hx⟩ := alive_iff_referent?.1 hc
  exact alive_iff_referent?.2 ⟨x, h.referent? c x hx⟩

/-- What is still there refers to what it referred to. -/
theorem Keeps.referent?_eq (h : s.Keeps s') {c : CellId} (hc : s'.alive c) :
    s'.referent? c = s.referent? c := by
  obtain ⟨x, hx⟩ := alive_iff_referent?.1 hc
  rw [hx, h.referent? c x hx]

theorem Sheds.extension?_eq (h : s.Sheds s') {c : CellId} (hc : s'.alive c) :
    s'.extension? c = s.extension? c := by
  rw [extension?, extension?, h.cell?_eq hc]

/-! ## A slot written, a payload made -/

theorem alive_writeCell (s : Store) (c d : CellId) (k : Cell → Cell) :
    (s.writeCell c k).alive d = s.alive d := by
  rw [alive, alive, writeCell, Table.contains, Table.contains, Table.find?_modify]
  split
  · rename_i hd
    rw [Option.isSome_map, hd]
  · rfl

theorem extension?_setReferent (s : Store) (c d : CellId) (r : Referent) :
    (s.setReferent c r).extension? d = s.extension? d := by
  rw [extension?, extension?, setReferent, cell?_writeCell]
  split
  · cases s.cell? d <;> rfl
  · rfl

theorem referent?_setReferent (s : Store) (c d : CellId) (r : Referent) :
    (s.setReferent c r).referent? d =
      if d = c then (s.referent? d).map fun _ => r else s.referent? d := by
  rw [referent?, referent?, setReferent, cell?_writeCell]
  split
  · cases s.cell? d <;> rfl
  · rfl

theorem referent?_setExtension (s : Store) (c d : CellId) (r : Option Record) :
    (s.setExtension c r).referent? d = s.referent? d := by
  rw [referent?, setExtension, cell?_writeCell]
  split
  · rw [Option.map_map]
    rfl
  · rfl

theorem keeps_setExtension (s : Store) (c : CellId) (r : Option Record) :
    s.Keeps (s.setExtension c r) where
  cells_next := rfl
  payloads_next := Nat.le_refl _
  referent? d x hx := by rwa [referent?_setExtension] at hx
  payload? _ _ _ hx := hx

theorem extension?_setExtension {s : Store} {d : CellId} (hd : s.alive d) (c : CellId)
    (r : Option Record) :
    (s.setExtension c r).extension? d = if d = c then r else s.extension? d := by
  obtain ⟨x, hx⟩ := alive_iff_cell?.1 hd
  rw [extension?, setExtension, cell?_writeCell]
  split
  · rw [hx]
    rfl
  · rfl

theorem Sheds.setExtension (h : s.Sheds s') (c : CellId) (r : Option Record) :
    (s.setExtension c r).Sheds (s'.setExtension c r) where
  cells_next := h.cells_next
  payloads_next := h.payloads_next
  cell? d x hx := by
    rw [Store.setExtension, cell?_writeCell] at hx ⊢
    split at hx
    · rename_i hd
      obtain ⟨y, hy, rfl⟩ := Option.map_eq_some_iff.1 hx
      rw [if_pos hd, h.cell? d y hy]
      rfl
    · rename_i hd
      rw [if_neg hd, h.cell? d x hx]
  payload? := h.payload?

/-! ## New cells and structures -/

theorem cell?_newCell_self (s : Store) (r : Referent) :
    (s.newCell r).2.cell? s.cells.next = some { referent := r } :=
  congrArg (Option.map Counted.content) (Table.find?_insert_self s.cells _)

theorem cell?_newCell_of_ne (s : Store) (r : Referent) {c : CellId} (h : c ≠ s.cells.next) :
    (s.newCell r).2.cell? c = s.cell? c :=
  congrArg (Option.map Counted.content) (Table.find?_insert_of_ne s.cells _ h)

theorem alive_newCell_of_ne (s : Store) (r : Referent) {c : CellId} (h : c ≠ s.cells.next) :
    (s.newCell r).2.alive c = s.alive c :=
  congrArg Option.isSome (Table.find?_insert_of_ne s.cells _ h)

theorem not_alive_next (s : Store) : s.alive s.cells.next = false :=
  congrArg Option.isSome s.cells.find?_next

/-- What is in the cells when there is a new one. -/
theorem referent?_newCell (s : Store) (r : Referent) (c : CellId) :
    (s.newCell r).2.referent? c = if c = s.cells.next then some r else s.referent? c := by
  by_cases hc : c = s.cells.next
  · rw [if_pos hc, hc]
    exact congrArg (Option.map Cell.referent) (s.cell?_newCell_self r)
  · rw [if_neg hc]
    exact congrArg (Option.map Cell.referent) (s.cell?_newCell_of_ne r hc)

/-- The slot of a new cell is empty. -/
theorem extension?_newCell (s : Store) (r : Referent) (c : CellId) :
    (s.newCell r).2.extension? c = s.extension? c := by
  by_cases hc : c = s.cells.next
  · have hnone : s.extension? s.cells.next = none :=
      extension?_of_dead (by simp [not_alive_next])
    rw [hc, hnone]
    exact congrArg (Option.bind · Cell.extension) (s.cell?_newCell_self r)
  · exact congrArg (Option.bind · Cell.extension) (s.cell?_newCell_of_ne r hc)

theorem payload?_newPayload_of_lt {s : Store} {q : PayloadId} (hq : q < s.payloads.next)
    (p : Payload) : (s.newPayload p).2.payload? q = s.payload? q :=
  congrArg (Option.map Counted.content)
    (Table.find?_insert_of_ne s.payloads _ (Nat.ne_of_lt hq))

theorem payload?_newPayload_self (s : Store) (p : Payload) :
    (s.newPayload p).2.payload? s.payloads.next = some p :=
  congrArg (Option.map Counted.content) (Table.find?_insert_self s.payloads _)

theorem keeps_newPayload (s : Store) (p : Payload) : s.Keeps (s.newPayload p).2 where
  cells_next := rfl
  payloads_next := Nat.le_succ _
  referent? _ _ hx := hx
  payload? _ _ hq hx := (payload?_newPayload_of_lt hq p).symm.trans hx

end Store

namespace World

variable (w : World) (target : CellId)

/-! ## What a discard and a publication write -/

theorem sheds_discard (r : Record) (n : Note) :
    (w.store.setExtension target none).Sheds (w.discard target r n).store := by
  have hrel : (w.store.setExtension target none).Sheds
      (((w.store.note n).setExtension target none).release r.owned) :=
    ((w.store.sheds_record (.note n)).setExtension target none).trans (Store.sheds_release _ _)
  exact hrel.trans (Store.sheds_record _ _)

theorem keeps_discard (r : Record) (n : Note) : w.store.Keeps (w.discard target r n).store :=
  (w.store.keeps_setExtension target none).trans (w.sheds_discard target r n).keeps

variable {w target}

/-- A discard empties one slot. -/
theorem extension?_discard {r : Record} {n : Note} {c : CellId}
    (hc : (w.discard target r n).store.alive c) :
    (w.discard target r n).store.extension? c =
      if c = target then none else w.store.extension? c := by
  rw [(w.sheds_discard target r n).extension?_eq hc,
    Store.extension?_setExtension ((w.keeps_discard target r n).alive hc)]

variable (w target) (p : Payload) (generation : Nat) (governor : CellId)

theorem sheds_publish :
    ((w.store.newPayload p).2.setExtension target
      (some { payload := w.store.payloads.next, generation, governor })).Sheds
      (w.publish target p generation governor).2.store :=
  (((w.store.newPayload p).2.sheds_retain _).setExtension target _).trans
    ((Store.sheds_record _ _).trans (Store.sheds_release _ _))

theorem keeps_publish : w.store.Keeps (w.publish target p generation governor).2.store :=
  ((w.store.keeps_newPayload p).trans ((w.store.newPayload p).2.keeps_setExtension target _)).trans
    (w.sheds_publish target p generation governor).keeps

variable {w target p generation governor}

/-- A publication fills one slot. -/
theorem extension?_publish {c : CellId}
    (hc : (w.publish target p generation governor).2.store.alive c) :
    (w.publish target p generation governor).2.store.extension? c =
      if c = target then some { payload := w.store.payloads.next, generation, governor }
      else w.store.extension? c := by
  have hw : (w.store.newPayload p).2.alive c :=
    (w.keeps_publish target p generation governor).alive hc
  rw [(w.sheds_publish target p generation governor).extension?_eq hc,
    Store.extension?_setExtension hw]
  rfl

/-- The new payload is what was published. -/
theorem payload?_publish {x : Payload}
    (hx : (w.publish target p generation governor).2.store.payload? w.store.payloads.next =
      some x) : x = p :=
  Option.some.inj ((((w.sheds_publish target p generation governor).payload? _ _ hx).symm.trans
    (w.store.payload?_newPayload_self p)))

end World

/-! ## The order of time -/

namespace Host

/-- What a host promises about its classes: a class carries its generation itself, and a class that
is found by its name is there. -/
structure Orderly (host : Host) : Prop where
  generation : ∀ {w w' : World} {c : CellId}, w'.store.referent? c = w.store.referent? c →
    host.generation w' c = host.generation w c
  class? : ∀ {w : World} {f : Holding} {name : String} {c : CellId}, w.Covers f →
    host.class? w name = some c → w.store.alive c

/-- A world and a later one of the same run. -/
structure Later (host : Host) (w w' : World) : Prop where
  cells_next : w.store.cells.next ≤ w'.store.cells.next
  payloads_next : w.store.payloads.next ≤ w'.store.payloads.next
  alive : ∀ {c}, c < w.store.cells.next → w'.store.alive c → w.store.alive c
  payload? : ∀ {p x}, p < w.store.payloads.next → w'.store.payload? p = some x →
    w.store.payload? p = some x
  generation : ∀ {c}, c < w.store.cells.next → w'.store.alive c →
    host.generation w c ≤ host.generation w' c

/-- Between the two worlds no extension slot was written. -/
structure Calm (host : Host) (w w' : World) : Prop extends host.Later w w' where
  extension? : ∀ {c}, w'.store.alive c → w'.store.extension? c = w.store.extension? c

variable {host : Host} {w w' w'' : World}

theorem Later.refl (w : World) : host.Later w w :=
  ⟨Nat.le_refl _, Nat.le_refl _, fun _ h => h, fun _ h => h, fun _ _ => Nat.le_refl _⟩

theorem Later.trans (h : host.Later w w') (h' : host.Later w' w'') : host.Later w w'' where
  cells_next := Nat.le_trans h.cells_next h'.cells_next
  payloads_next := Nat.le_trans h.payloads_next h'.payloads_next
  alive hc ha := h.alive hc (h'.alive (Nat.lt_of_lt_of_le hc h.cells_next) ha)
  payload? hp hx := h.payload? hp (h'.payload? (Nat.lt_of_lt_of_le hp h.payloads_next) hx)
  generation hc ha := by
    have hc' := Nat.lt_of_lt_of_le hc h.cells_next
    exact Nat.le_trans (h.generation hc (h'.alive hc' ha)) (h'.generation hc' ha)

theorem Calm.refl (w : World) : host.Calm w w := ⟨.refl w, fun _ => rfl⟩

theorem Calm.trans (h : host.Calm w w') (h' : host.Calm w' w'') : host.Calm w w'' where
  toLater := h.toLater.trans h'.toLater
  extension? {c} hc := by
    rw [h'.extension? hc]
    by_cases hc' : w'.store.alive c
    · exact h.extension? hc'
    · -- the cell is newer than both worlds
      have hge : ¬ c < w'.store.cells.next := fun hlt => hc' (h'.alive hlt hc)
      rw [Store.extension?_of_dead hc', Store.extension?_of_dead fun ha => hge
        (Nat.lt_of_lt_of_le (Store.lt_next_of_alive ha) h.cells_next)]

/-- What the cache does on its own takes no time that a class would notice. -/
theorem later_of_keeps (ho : host.Orderly) (h : w.store.Keeps w'.store) : host.Later w w' where
  cells_next := Nat.le_of_eq h.cells_next.symm
  payloads_next := h.payloads_next
  alive _ ha := h.alive ha
  payload? hp hx := h.payload? _ _ hp hx
  generation _ ha := Nat.le_of_eq (ho.generation (h.referent?_eq ha)).symm

theorem calm_of_sheds (ho : host.Orderly) (h : w.store.Sheds w'.store) : host.Calm w w' where
  toLater := later_of_keeps ho h.keeps
  extension? ha := h.extension?_eq ha

end Host

end MetaCache
