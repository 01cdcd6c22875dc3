import Mathlib.Data.List.Induction
import MetaCache.Proofs.Play.Builds
/-!
# Slots in a play

What is in a slot is what was put there last, unless it has been taken out since. So it can be read
off a play whether a lookup would find an answer.

* `attached?`: what the steps leave in a slot; `Play.extension?_eq`: that it is there.
* `Play.stands`: it was compiled without an error, and is in the store as it was compiled.
* `Play.cached?_eq_some_iff`: when a lookup is answered from the slot.
-/

namespace MetaCache

variable {host : Host} {w₀ : World} {f₀ : Holding} {n : Nat} {x y : Stage} {ts : List Turn}
  {c : CellId}

/-- What is in the slot of `c` afterwards, if `old` was put there last. -/
def Act.attach (a : Act) (c : CellId) (old : Option Product) : Option Product :=
  match a.product? with
  | some b => if c = b.target then some b else old
  | none => if a.empties = some c then none else old

theorem Act.slot_map (a : Act) (c : CellId) (old : Option Product) :
    a.slot c (old.map Product.record) = (a.attach c old).map Product.record := by
  rw [slot, attach]
  cases a.product? <;> dsimp only <;> split <;> rfl

/-- What the steps leave in the slot of `c`. -/
def attached? (ts : List Turn) (c : CellId) : Option Product :=
  ts.foldl (fun old t => t.act.attach c old) none

theorem attached?_concat (ts : List Turn) (t : Turn) (c : CellId) :
    attached? (ts ++ [t]) c = t.act.attach c (attached? ts c) := by
  rw [attached?, List.foldl_append]
  rfl

/-- It was built, for this slot. -/
theorem mem_of_attached? {b : Product} (hb : attached? ts c = some b) :
    b.target = c ∧ b ∈ products ts := by
  induction ts using List.reverseRecOn with
  | nil => cases hb
  | append_singleton ts t ih =>
    rw [attached?_concat, Act.attach] at hb
    rw [mem_products_concat]
    cases ht : t.act.product? with
    | none =>
      rw [ht] at hb
      dsimp only at hb
      split at hb
      · cases hb
      · exact (ih hb).imp_right .inl
    | some b' =>
      rw [ht] at hb
      dsimp only at hb
      split at hb
      · rename_i hc
        cases hb
        refine ⟨hc.symm, .inr ?_⟩
        cases ha : t.act <;> rw [ha] at ht <;> cases ht
        rfl
      · exact (ih hb).imp_right .inl

variable (ho : host.Orderly) (hu : ∀ c, w₀.store.extension? c = none) (hcov : w₀.Covers f₀)
  (h : Play host w₀ f₀ ts x)

include ho hu hcov h

/-- What the steps leave in a slot is what is there. -/
theorem Play.extension?_eq (ha : x.world.store.alive c) :
    x.world.store.extension? c = (attached? ts c).map Product.record := by
  refine h.induct (P := fun ts x => x.world.store.alive c →
    x.world.store.extension? c = (attached? ts c).map Product.record) (fun _ => hu c)
    (fun {ts x a y} hp ih hs ha => ?_) ha
  rw [hs.extension?_eq ha, attached?_concat, ← Act.slot_map]
  by_cases hx : x.world.store.alive c
  · rw [ih hx]
  · -- nothing was ever put into the slot of a cell that is new
    cases hb : attached? ts c with
    | none => rw [Store.extension?_of_dead hx, Option.map_none]
    | some b =>
      obtain ⟨rfl, hbuilt⟩ := mem_of_attached? hb
      exact absurd ((hs.later ho).alive ((hp.kept ho hu hcov).lasts b hbuilt).target_lt ha) hx

/-- What is in a slot was compiled without an error, and is in the store as it was compiled. -/
theorem Play.stands (ha : x.world.store.alive c) {b : Product} (hb : attached? ts c = some b) :
    b.Sound host ∧ x.world.store.payload? b.record.payload = some b.compiled.content := by
  have hkept := h.kept ho hu hcov
  obtain ⟨g, hg⟩ := (h.backed ho hcov).covers
  have hslot := h.extension?_eq ho hu hcov ha
  rw [hb, Option.map_some] at hslot
  obtain ⟨-, hbuilt⟩ := mem_of_attached? hb
  obtain ⟨p, hp⟩ := Option.isSome_iff_exists.1 (Store.Covers.payload_isSome hg hslot)
  exact ⟨hkept.sound b hbuilt, (hkept.lasts b hbuilt).content p hp ▸ hp⟩

/-- A lookup is answered from the slot exactly if what was put there last is still good. -/
theorem Play.cached?_eq_some_iff (ha : x.world.store.alive c) {wanted : Wanted} {p : PayloadId} :
    (x.world.cached? host wanted c).1 = some p ↔ ∃ b, attached? ts c = some b ∧
      b.record.payload = p ∧ wanted.accepts b.compiled.content ∧
      x.world.store.alive b.compiled.governor ∧
      host.generation x.world b.compiled.governor = b.compiled.generation := by
  rw [World.cached?_eq_some_iff, h.extension?_eq ho hu hcov ha]
  constructor
  · rintro ⟨r, hr, hf, rfl⟩
    obtain ⟨b, hb, rfl⟩ := Option.map_eq_some_iff.1 hr
    obtain ⟨⟨y, hy, hacc⟩, hag⟩ := World.isFresh_iff.1 hf
    cases (h.stands ho hu hcov ha hb).2.symm.trans hy
    exact ⟨b, hb, rfl, hacc, hag⟩
  · rintro ⟨b, hb, rfl, hacc, hag⟩
    have hp := (h.stands ho hu hcov ha hb).2
    exact ⟨b.record, by rw [hb]; rfl, World.isFresh_iff.2 ⟨⟨_, hp, hacc⟩, hag⟩, rfl⟩

end MetaCache
