import Mathlib.Algebra.BigOperators.Group.Finset.Piecewise
import MetaCache.Proofs.Play.Builds
/-!
# Counters in a play

What has been put into slots is still there, or it was discarded, or it went with its object, or
something else was put in its place. The last happens only if host code, while the build was waiting
for it, looked the same object up.

* `World.attachments`, `Turn.finalised`, `Turn.replaced`: the slots that are filled, and the ways in
  which a step empties them without counting.
* `Step.balance`: each step keeps the balance.
* `Stage.Guarded`: whatever fills the slot that a build found empty began later than the build.
-/

namespace MetaCache

open Finset

variable {host : Host} {w w' w₀ : World} {f₀ : Holding} {n : Nat} {x y : Stage} {a : Act}
  {ts : List Turn}

/-- How many slots are filled. -/
def World.attachments (w : World) : Nat :=
  ((range w.store.cells.next).filter fun c => (w.store.extension? c).isSome).card

/-- How many slots were filled and have gone with their cells. What the step discards is not among
them. -/
def Turn.finalised (t : Turn) : Nat :=
  ((range t.before.store.cells.next).filter fun c => (t.before.store.extension? c).isSome ∧
    ¬ t.after.store.alive c ∧ t.act.empties ≠ some c).card

/-- How many slots were filled by a build that found them filled. -/
def Turn.replaced (t : Turn) : Nat :=
  (t.act.product?.bind Product.found).isSome.toNat

/-! ## The balance -/

/-- Whether the slot of `c` is filled, as a number. -/
def World.filled (w : World) (c : CellId) : Nat := (w.store.extension? c).isSome.toNat

theorem World.filled_of_dead {c : CellId} (h : ¬ w.store.alive c) : w.filled c = 0 := by
  rw [filled, Store.extension?_of_dead h]
  rfl

theorem World.attachments_eq {k : Nat} (h : w.store.cells.next ≤ k) :
    w.attachments = ∑ c ∈ range k, w.filled c := by
  rw [attachments, card_filter]
  have hsub : range w.store.cells.next ⊆ range k := range_mono h
  refine (sum_congr rfl fun c _ => ?_).trans (sum_subset hsub fun c _ hc => ?_)
  · rw [filled]
    cases (w.store.extension? c).isSome <;> rfl
  · exact World.filled_of_dead fun ha => hc (mem_range.2 (Store.lt_next_of_alive ha))

/-- A sum with one term at most. -/
theorem sum_at {k : Nat} {o : Option CellId} (g : CellId → Nat)
    (h : ∀ c, o = some c → g c ≠ 0 → c < k) :
    ∑ c ∈ range k, (if o = some c then g c else 0) = (o.map g).getD 0 := by
  cases o with
  | none => simp
  | some d =>
    simp only [Option.some.injEq, Option.map_some, Option.getD_some]
    rw [sum_ite_eq, ite_eq_left_iff]
    intro hd
    by_contra hne
    exact hd (mem_range.2 (h d rfl (Ne.symm hne)))

theorem Turn.finalised_eq {t : Turn} {k : Nat} (h : t.before.store.cells.next ≤ k) :
    t.finalised = ∑ c ∈ range k,
      if ¬ t.after.store.alive c ∧ t.act.empties ≠ some c then t.before.filled c else 0 := by
  have hsub : range t.before.store.cells.next ⊆ range k := range_mono h
  rw [finalised, card_filter]
  refine (sum_congr rfl fun c _ => ?_).trans (sum_subset hsub fun c _ hc => ?_)
  · rw [World.filled]
    cases (t.before.store.extension? c).isSome <;> simp
  · have hdead : ¬ t.before.store.alive c := fun ha => hc (mem_range.2 (Store.lt_next_of_alive ha))
    rw [World.filled_of_dead hdead, ite_self]

/-- What a step makes of one slot. -/
theorem Act.filled_slot (a : Act) (c : CellId) (old : Option Record) :
    old.isSome.toNat + (if a.product?.map (·.target) = some c then 1 else 0) =
      (a.slot c old).isSome.toNat + (if a.empties = some c then old.isSome.toNat else 0) +
        if a.product?.map (·.target) = some c then old.isSome.toNat else 0 := by
  cases a with
  | built b =>
    by_cases hc : c = b.target
    · simp [Act.slot, Act.product?, Act.empties, hc, add_comm]
    · simp [Act.slot, Act.product?, Act.empties, hc, Ne.symm hc]
  | _ =>
    simp only [Act.slot, Act.product?, Option.map_none, reduceCtorEq, if_false, add_zero]
    split <;> simp

section

variable (ho : host.Orderly) (hx : x.Backed) (h : Step host n x a y)

include ho hx h

theorem Step.alive_of_built {c : CellId} (hc : a.product?.map (·.target) = some c) :
    y.world.store.alive c := by
  obtain ⟨b, hb, rfl⟩ := Option.map_eq_some_iff.1 hc
  cases a with
  | built b' =>
    cases hb
    exact h.target_alive ho hx
  | _ => cases hb

/-- What a step makes of one slot, if the cell may go as well. -/
theorem Step.filled_eq (c : CellId) :
    x.world.filled c + (if a.product?.map (·.target) = some c then 1 else 0) =
      y.world.filled c +
        (if ¬ y.world.store.alive c ∧ a.empties ≠ some c then x.world.filled c else 0) +
        (if a.empties = some c then x.world.filled c else 0) +
        if a.product?.map (·.target) = some c then x.world.filled c else 0 := by
  by_cases ha : y.world.store.alive c
  · have hgone : ¬ (¬ y.world.store.alive c ∧ a.empties ≠ some c) := fun hd => hd.1 ha
    rw [if_neg hgone, add_zero, World.filled, World.filled, h.extension?_eq ha]
    exact a.filled_slot c _
  · have hc : a.product?.map (·.target) ≠ some c := fun hc => ha (h.alive_of_built ho hx hc)
    rw [World.filled_of_dead ha, if_neg hc, if_neg hc]
    by_cases he : a.empties = some c <;> simp [ha, he]

/-- Each step keeps the balance. -/
theorem Step.balance :
    x.world.attachments + a.product?.isSome.toNat =
      y.world.attachments + (Turn.mk a x.world y.world).finalised +
        (Turn.mk a x.world y.world).discarded + (Turn.mk a x.world y.world).replaced := by
  have hlater := h.later ho
  have hlt : ∀ c, x.world.filled c ≠ 0 → c < y.world.store.cells.next := fun c hc => by
    by_contra hge
    refine hc (World.filled_of_dead fun ha => hge ?_)
    exact Nat.lt_of_lt_of_le (Store.lt_next_of_alive ha) hlater.cells_next
  have hbuilt : a.product?.isSome.toNat = ∑ c ∈ range y.world.store.cells.next,
      if a.product?.map (·.target) = some c then 1 else 0 := by
    rw [sum_at _ fun c hc _ => Store.lt_next_of_alive (h.alive_of_built ho hx hc)]
    cases a.product? <;> rfl
  have hdiscarded : (Turn.mk a x.world y.world).discarded =
      ∑ c ∈ range y.world.store.cells.next,
        if a.empties = some c then x.world.filled c else 0 := by
    rw [sum_at _ fun c _ hc => hlt c hc, Turn.discarded]
    cases a.empties <;> rfl
  have hreplaced : (Turn.mk a x.world y.world).replaced =
      ∑ c ∈ range y.world.store.cells.next,
        if a.product?.map (·.target) = some c then x.world.filled c else 0 := by
    rw [sum_at _ fun c _ hc => hlt c hc, Turn.replaced]
    cases h <;> rfl
  rw [World.attachments_eq hlater.cells_next, World.attachments_eq (Nat.le_refl _),
    Turn.finalised_eq hlater.cells_next, hdiscarded, hreplaced, hbuilt, ← sum_add_distrib,
    ← sum_add_distrib, ← sum_add_distrib, ← sum_add_distrib]
  exact sum_congr rfl fun c _ => h.filled_eq ho hx c

end

/-! ## Slots that fill while a build waits -/

/-- If the slot of a build under way is filled, then by a build that began after it and has come to
its end. -/
def Stage.Guarded (ts : List Turn) (x : Stage) : Prop :=
  ∀ m ∈ x.marks, (x.world.store.extension? m.2).isSome →
    ∃ b ∈ products ts, b.target = m.2 ∧ m.1 < b.number

/-- A slot that was filled before the step is guarded after it. -/
theorem Stage.Guarded.concat (h : x.Guarded ts) {m : Nat × CellId} {r : Record}
    (hm : m ∈ x.marks) (hr : x.world.store.extension? m.2 = some r) (t : Turn) :
    ∃ b ∈ products (ts ++ [t]), b.target = m.2 ∧ m.1 < b.number := by
  obtain ⟨b, hb, hmark⟩ := h m hm (Option.isSome_iff_exists.2 ⟨r, hr⟩)
  exact ⟨b, mem_products_concat.2 (.inl hb), hmark⟩

theorem Stage.Guarded.step {t : Turn} (h : x.Guarded ts) (hord : x.Ordered ts.length)
    (hs : Step host ts.length x t.act y) : y.Guarded (ts ++ [t]) := by
  intro m hm hfilled
  obtain ⟨r, hr⟩ := Option.isSome_iff_exists.1 hfilled
  rcases hs.marks_cases with ⟨hp, -, hmarks⟩ | ⟨s, he, hend⟩
  · -- nothing was built, so nothing was filled
    have hold : x.world.store.extension? m.2 = some r := by
      rcases hs.extension?_cases hr with hx | ⟨b, hb, -⟩
      · exact hx
      · rw [hb] at hp
        cases hp
    rcases hmarks with he | ⟨c, hc, he⟩
    · rw [he] at hm
      exact h.concat hm hold t
    · rw [he] at hm
      rcases List.mem_cons.1 hm with rfl | hm
      · -- the slot of a build that begins is empty
        rw [hs.extension?_eq (Store.alive_of_extension? hr), Act.slot, hp, hc] at hr
        dsimp only at hr
        rw [if_pos rfl] at hr
        cases hr
      · exact h.concat hm hold t
  · have hm' : m ∈ x.marks := by
      rw [he]
      exact List.mem_cons_of_mem _ hm
    rcases hs.extension?_cases hr with hx | ⟨b, hb, htarget, -⟩
    · exact h.concat hm' hx t
    · -- the build that has just ended began after all that still wait
      rcases hend with ⟨b', hb', rfl⟩ | ⟨e, hf⟩
      · cases hb.symm.trans hb'
        have hlt := hord.decreasing
        rw [he] at hlt
        exact ⟨b, mem_products_concat.2 (.inr hb), htarget.symm, (List.pairwise_cons.1 hlt).1 m hm⟩
      · cases hb.symm.trans hf

/-- A build that finds its slot filled in the end waited for another one of the same object. -/
theorem Stage.Guarded.exists_of_found {b : Product} (h : x.Guarded ts)
    (hs : Step host n x (.built b) y) (hf : b.found.isSome) :
    ∃ b' ∈ products ts, b'.target = b.target ∧ b.number < b'.number := by
  obtain ⟨hfocus, hended, -⟩ := hs.built_inv
  have hmem : b.mark ∈ x.marks := by
    rw [Stage.marks, Stage.tasks, hfocus]
    exact List.mem_cons_self
  rw [Product.found, hended] at hf
  exact h b.mark hmem hf

theorem Play.guarded (h : Play host w₀ f₀ ts x) : x.Guarded ts := by
  refine h.induct (fun _ hm => nomatch hm) fun hp ih hs => ih.step hp.apart.toOrdered hs

end MetaCache
