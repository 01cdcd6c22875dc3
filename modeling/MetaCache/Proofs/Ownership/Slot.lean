import MetaCache.Lookup
import MetaCache.Proofs.Ownership.Update
/-!
# Slots and what they own

A record that leaves a slot gives its shares back, and one that enters it takes shares of its own,
so that the handle a lookup answers is one more share of the payload.

* `World.cached?_eq_some_iff`: when a lookup is answered from the slot.
* `World.Covers.discard`, `World.Covers.publish`, `World.Covers.cached?`: the three ways in which a
  lookup touches a slot.
-/

namespace MetaCache.World

variable {w w' : World} {f : Holding} {host : Host} {target : CellId}

/-! ## What a lookup makes of a slot -/

theorem isFresh_iff {wanted : Wanted} {r : Record} : w.isFresh host wanted r ↔
    (∃ p, w.store.payload? r.payload = some p ∧ wanted.accepts p) ∧
      w.store.alive r.governor ∧ host.generation w r.governor = r.generation := by
  simp only [isFresh, Bool.and_eq_true, Option.any_eq_true, beq_iff_eq, and_assoc]

theorem cached?_of_none (host : Host) (wanted : Wanted) (h : w.store.extension? target = none) :
    w.cached? host wanted target = (none, w) := by
  rw [World.cached?, h]

theorem cached?_of_fresh {wanted : Wanted} {r : Record} (h : w.store.extension? target = some r)
    (hr : w.isFresh host wanted r) : w.cached? host wanted target =
      (some r.payload, (w.count fun st => { st with hits := st.hits + 1 }).onStore fun s =>
        (s.retain [.payload r.payload]).note
          (.cacheHit (w.store.cellText target) r.generation)) := by
  simp only [World.cached?, h]
  exact if_pos hr

theorem cached?_of_stale {wanted : Wanted} {r : Record} (h : w.store.extension? target = some r)
    (hr : ¬ w.isFresh host wanted r) : w.cached? host wanted target =
      (none, w.discard target r
        (.discardedStale (w.store.cellText target) r.generation)) := by
  simp only [World.cached?, h]
  exact if_neg hr

/-- A lookup is answered from the slot exactly if there is something fresh in it. -/
theorem cached?_eq_some_iff {wanted : Wanted} {p : PayloadId} :
    (w.cached? host wanted target).1 = some p ↔
      ∃ r, w.store.extension? target = some r ∧ w.isFresh host wanted r ∧ r.payload = p := by
  cases h : w.store.extension? target with
  | none => simp [cached?_of_none host wanted h]
  | some r =>
    by_cases hr : w.isFresh host wanted r
    · simp [cached?_of_fresh h hr, hr]
    · simp [cached?_of_stale h hr, hr]

/-- A lookup that is not answered from the slot finds it empty, or it empties it. -/
theorem miss_cases {wanted : Wanted} (h : w.cached? host wanted target = (none, w')) :
    (w.store.extension? target = none ∧ w' = w) ∨ ∃ r, w.store.extension? target = some r ∧
      w' = w.discard target r (.discardedStale (w.store.cellText target) r.generation) := by
  cases hx : w.store.extension? target with
  | none =>
    rw [cached?_of_none host wanted hx] at h
    cases h
    exact .inl ⟨rfl, rfl⟩
  | some r =>
    by_cases hr : w.isFresh host wanted r
    · rw [cached?_of_fresh hx hr] at h
      cases h
    · rw [cached?_of_stale hx hr] at h
      cases h
      exact .inr ⟨r, rfl, rfl⟩

/-- A discard on request empties one slot at most. -/
theorem invalidate_cases (w : World) (v : Value) : (w.invalidate v).2 = w ∨
    ∃ target r n, w.store.extension? target = some r ∧
      (w.invalidate v).2 = w.discard target r n := by
  unfold World.invalidate
  split
  · exact .inl rfl
  · split
    · exact .inl rfl
    · exact .inr ⟨_, _, _, ‹_›, rfl⟩

/-! ## What it owns -/

/-- What was in the slot is given back. -/
theorem Covers.discard {r : Record} (h : w.Covers f) (hr : w.store.extension? target = some r)
    (n : Note) : (w.discard target r n).Covers f := by
  have hs : (w.store.note n).Covers (holding (ownedByRecord? none) + (holding w.roots + f)) := by
    rw [ownedByRecord?, holding_nil, zero_add]
    exact h
  have hs := hs.setExtension (c := target)
  rw [show (w.store.note n).extension? target = some r from hr] at hs
  exact hs.release

/-- A structure that its maker gives away is held by the slot and by the handle answered. -/
theorem Covers.publish {p : Payload} (h : w.Covers (holding [.held p] + f)) (generation : Nat)
    (governor : CellId) :
    (w.publish target p generation governor).2.Covers
      (holding [.payload w.store.payloads.next] + f) := by
  rw [Covers, add_left_comm, holding_held] at h
  have hnew := h.newPayload
  have hret := hnew.retain (w.store.present_record p generation governor)
  have hset := Store.Covers.setExtension (c := target)
    (r := some { payload := w.store.payloads.next, generation, governor }) hret
  rw [Covers, add_left_comm]
  exact Store.Covers.release (s := Store.note _ _) hset

/-- What is found in the slot is shared, and what is stale is given back. -/
theorem Covers.cached? (h : w.Covers f) (wanted : Wanted) :
    (w.cached? host wanted target).2.Covers
      (holding ((w.cached? host wanted target).1.map Owned.payload).toList + f) := by
  cases hr : w.store.extension? target with
  | none => simpa [cached?_of_none host wanted hr] using h
  | some r =>
    by_cases hfresh : w.isFresh host wanted r
    · obtain ⟨⟨p, hp, -⟩, -⟩ := isFresh_iff.1 hfresh
      obtain ⟨e, he, -⟩ := Option.map_eq_some_iff.1 hp
      rw [cached?_of_fresh hr hfresh, Covers, add_left_comm]
      refine Store.Covers.retain (s := w.store) h fun o ho => ?_
      rw [List.mem_singleton.1 ho]
      exact Option.isSome_iff_exists.2 ⟨e, he⟩
    · simpa [cached?_of_stale hr hfresh] using h.discard hr _

end MetaCache.World
