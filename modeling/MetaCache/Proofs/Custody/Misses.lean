import MetaCache.Proofs.Balance
import MetaCache.Proofs.Custody.Sizes
import MetaCache.Proofs.History.Quiet
import MetaCache.Proofs.Storage.Writes
/-!
# Slots that are emptied

A lookup that finds nothing fresh goes on from a world in which the slot is empty. What was in the
slot has been detached and dropped by then, and but for the journal, the counters and the dead
entries of the key table nothing else has been done.

* `Store.SameTables`: stores that differ in their journals at most.
* `World.emptied`: the store once a slot has been emptied.
* `World.Missed`, `World.missed_of_cached?`: what a lookup that finds nothing fresh leaves.
-/

namespace MetaCache

namespace Store

variable {s t u : Store}

/-- The same entries with the same counts. What has happened may differ. -/
structure SameTables (s t : Store) : Prop where
  cells : t.cells = s.cells
  names : t.names = s.names
  payloads : t.payloads = s.payloads

namespace SameTables

theorem refl (s : Store) : s.SameTables s := ⟨rfl, rfl, rfl⟩

theorem trans (h : s.SameTables t) (h' : t.SameTables u) : s.SameTables u :=
  ⟨h'.cells.trans h.cells, h'.names.trans h.names, h'.payloads.trans h.payloads⟩

theorem record (s : Store) (e : Event) : s.SameTables (s.record e) := ⟨rfl, rfl, rfl⟩

theorem count_eq (h : s.SameTables t) (x : Share) : t.count x = s.count x := by
  cases x <;> simp only [count, strongCount, weakCount, nameCount, payloadCount, weakPayloadCount,
    h.cells, h.names, h.payloads]

theorem has_eq (h : s.SameTables t) (x : Share) : t.has x = s.has x := by
  cases x <;> simp only [has, h.cells, h.names, h.payloads]

theorem nameAlive_eq (h : s.SameTables t) : t.nameAlive = s.nameAlive :=
  funext fun n => h.has_eq (.name n.id)

theorem setExtension (h : s.SameTables t) (c : CellId) (r : Option Record) :
    (s.setExtension c r).SameTables (t.setExtension c r) :=
  ⟨by rw [Store.setExtension, writeCell, h.cells]; rfl, h.names, h.payloads⟩

theorem releaseOne (h : s.SameTables t) (o : Owned) :
    (t.releaseOne o).1 = (s.releaseOne o).1 ∧ (s.releaseOne o).2.SameTables (t.releaseOne o).2 := by
  obtain ⟨cells, names, payloads, journal⟩ := s
  obtain ⟨cells', names', payloads', journal'⟩ := t
  obtain ⟨rfl, rfl, rfl⟩ := h
  cases o with
  | weakCell c | weakPayload p | held p => exact ⟨rfl, rfl, rfl, rfl⟩
  | cell c =>
    simp only [Store.releaseOne]
    split
    · exact ⟨rfl, rfl, rfl, rfl⟩
    · split <;> exact ⟨rfl, rfl, rfl, rfl⟩
  | name n =>
    simp only [Store.releaseOne]
    split
    · exact ⟨rfl, rfl, rfl, rfl⟩
    · split <;> exact ⟨rfl, rfl, rfl, rfl⟩
  | payload p =>
    simp only [Store.releaseOne]
    split
    · exact ⟨rfl, rfl, rfl, rfl⟩
    · split <;> exact ⟨rfl, rfl, rfl, rfl⟩

/-- What goes does not depend on what has happened. -/
theorem release (h : s.SameTables t) (os : List Owned) :
    (s.release os).SameTables (t.release os) := by
  induction s, os using Store.release.induct generalizing t with
  | case1 s =>
    rw [release_nil, release_nil]
    exact h
  | case2 s o rest _ ih =>
    obtain ⟨hpassed, hone⟩ := h.releaseOne o
    rw [release_cons, release_cons, hpassed]
    exact ih hone

end SameTables

end Store

namespace World

variable {host : Host} {w w' : World} {k : Holding} {c : CellId}

/-- The store once the record in the slot of `c` has been detached and dropped, if there is one. -/
def emptied (c : CellId) (w : World) : Store :=
  match w.store.extension? c with
  | none => w.store
  | some r => (w.store.setExtension c none).release r.owned

/-- From `w` a lookup of `c` that found nothing fresh has come to `w'`. -/
structure Missed (c : CellId) (w w' : World) : Prop where
  store : (w.emptied c).SameTables w'.store
  old : ∀ x : Share, x.OldIn w.store → x.OldIn w'.store
  roots : w'.roots = w.roots
  slots : ∀ d, w'.store.alive d →
    w'.store.extension? d = if d = c then none else w.store.extension? d
  liveNames : w'.liveNames = w.cache.keys.liveCount (w.emptied c)
  stats : w'.cache.stats = { w.cache.stats with
    invalidations := w.cache.stats.invalidations + (w.store.extension? c).isSome.toNat }

theorem sameTables_discard {r : Record} (hr : w.store.extension? c = some r) (n : Note) :
    (w.emptied c).SameTables (w.discard c r n).store := by
  have hgone : ((w.store.setExtension c none).release r.owned).SameTables
      (((w.store.note n).setExtension c none).release r.owned) :=
    ((Store.SameTables.record w.store (.note n)).setExtension c none).release r.owned
  rw [emptied, hr]
  exact hgone.trans (.record _ _)

theorem names_next_discard (w : World) (c : CellId) (r : Record) (n : Note) :
    (w.discard c r n).store.names.next = w.store.names.next :=
  Store.names_next_release _ _

theorem missed_discard {r : Record} (hr : w.store.extension? c = some r) (n : Note) :
    w.Missed c (w.discard c r n) where
  store := w.sameTables_discard hr n
  old x hx := by
    have hsheds := w.sheds_discard c r n
    cases x with
    | cell d | weakCell d => exact Nat.lt_of_lt_of_eq hx hsheds.cells_next.symm
    | name m => exact Nat.lt_of_lt_of_eq hx (w.names_next_discard c r n).symm
    | payload p | weakPayload p => exact Nat.lt_of_lt_of_eq hx hsheds.payloads_next.symm
  roots := rfl
  slots _ hd := extension?_discard hd
  liveNames := by
    show (KeyTable.sweep _ _).1.liveCount (KeyTable.sweep _ _).2 = _
    rw [KeyTable.liveCount_sweep, KeyTable.liveCount_eq, KeyTable.liveCount_eq,
      ← (w.sameTables_discard hr n).nameAlive_eq]
    rfl
  stats := by
    rw [hr]
    rfl

/-- What is counted in the end is still all there is. -/
theorem WellCounted.discard {r : Record} (h : w.WellCounted k)
    (hr : w.store.extension? c = some r) (n : Note) : (w.discard c r n).WellCounted k where
  covers := h.covers.discard hr n
  attended := by
    have hset : ((w.store.note n).setExtension c none).Attended :=
      Store.Attended.writeCell (s := w.store.note n) h.attended c fun x =>
        { x with extension := none }
    exact hset.release r.owned
  known m hm := by
    rw [w.names_next_discard]
    exact h.known m (KeyTable.mem_names_sweep hm)

theorem missed_of_cached? {wanted : Wanted} (hm : w.cached? host wanted c = (none, w')) :
    w.Missed c w' ∧ (w.WellCounted k → w'.WellCounted k) := by
  rcases miss_cases hm with ⟨hx, rfl⟩ | ⟨r, hx, rfl⟩
  · have hsame : w'.emptied c = w'.store := by rw [emptied, hx]
    refine ⟨⟨hsame ▸ .refl w'.store, fun _ hx => hx, rfl, fun d hd => ?_, ?_, ?_⟩, id⟩
    · split
      · rename_i hdc
        rw [hdc, hx]
      · rfl
    · rw [hsame, liveNames]
    · rw [hx]
      rfl
  · exact ⟨missed_discard hx _, fun h => h.discard hx _⟩

end World

end MetaCache
