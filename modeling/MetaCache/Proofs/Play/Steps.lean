import MetaCache.Proofs.Play.Basic
import MetaCache.Proofs.History.Quiet
/-!
# What a step does to slots and counters

Of all that happens in a play, only three things write an extension slot: a discard on request and a
lookup that finds nothing to answer empty one, and a build that ends well fills one.

* `Act.slot`, `Step.extension?_eq`: what a step leaves in a slot.
* `Step.later`: a step takes a world to a later one.
* `Step.stats_eq`: what a step adds to the counters.
-/

namespace MetaCache

variable {host : Host} {w w' : World} {n : Nat} {x y : Stage} {a : Act} {c : CellId}

/-! ## Acts -/

namespace Act

/-- The cell whose slot is empty afterwards, if it is there. -/
def empties : Act → Option CellId
  | invalidated v => v.strong?
  | missed l => l.object.strong?
  | _ => none

/-- What was built. -/
def product? : Act → Option Product
  | built b => some b
  | _ => none

/-- The build that failed. -/
def failure? : Act → Option Task
  | failed t _ => some t
  | _ => none

/-- A lookup was answered from its slot. -/
def isHit : Act → Bool
  | hit .. => true
  | _ => false

/-- What is in the slot of `c` afterwards, if `old` was in it. -/
def slot (a : Act) (c : CellId) (old : Option Record) : Option Record :=
  match a.product? with
  | some b => if c = b.target then some b.record else old
  | none => if a.empties = some c then none else old

end Act

/-! ## Slots -/

theorem Work.sheds {β : Type} (host : Host) (x : Work β) (w : World) :
    w.store.Sheds (x.apply host w).2.store := by
  cases x with
  | read f => exact .refl _
  | release os => exact Store.sheds_release _ _
  | note n => exact Store.sheds_record _ _
  | retainWeak c => exact Store.sheds_retain _ _
  | key name => exact w.sheds_key name
  | upgrade v => exact w.store.sheds_upgrade v
  | findClass name => exact Store.sheds_retain _ _

theorem World.extension?_invalidate {v : Value} (hc : (w.invalidate v).2.store.alive c) :
    (w.invalidate v).2.store.extension? c =
      if v.strong? = some c then none else w.store.extension? c := by
  cases hv : v.strong? with
  | none => simp only [World.invalidate, hv, reduceCtorEq, if_false]
  | some target =>
    cases hx : w.store.extension? target with
    | none =>
      simp only [World.invalidate, hv, hx, Option.some.injEq]
      split
      · rename_i ht
        rw [← ht, hx]
      · rfl
    | some r =>
      have hw : (w.invalidate v).2 =
          w.discard target r (.invalidated (w.store.cellText target)) := by
        simp only [World.invalidate, hv, hx]
      rw [hw] at hc ⊢
      rw [World.extension?_discard hc]
      simp only [Option.some.injEq, eq_comm]

/-- A step takes a world to a later one. -/
theorem Step.later (ho : host.Orderly) (h : Step host n x a y) : host.Later x.world y.world := by
  cases h with
  | changed hch => exact hch.toLater
  | invalidated w _ _ v =>
    show host.Later w (w.invalidate v).2
    rcases w.invalidate_cases v with hw | ⟨target, r, n, -, hw⟩
    · rw [hw]
      exact .refl w
    · rw [hw]
      exact Host.later_of_keeps ho (w.keeps_discard target r n)
  | @hit l c w w' _ _ _ _ hc | @missed l c w w' _ _ _ hc =>
    have hk := (World.Upkeep.cached? w host l.wanted c).keeps
    rw [hc] at hk
    exact Host.later_of_keeps ho hk
  | worked w _ _ x _ => exact (Host.calm_of_sheds ho (x.sheds host w)).toLater
  | built w _ t x => exact Host.later_of_keeps ho (w.keeps_publish _ _ _ _)
  | refused w _ _ _ | asked w _ _ _ _ _ | replied w _ _ _ | failed w _ _ _ => exact .refl w

/-- What a step leaves in a slot. -/
theorem Step.extension?_eq (h : Step host n x a y) (ha : y.world.store.alive c) :
    y.world.store.extension? c = a.slot c (x.world.store.extension? c) := by
  cases h with
  | changed hch => exact hch.extension? ha
  | invalidated w _ _ v => exact World.extension?_invalidate ha
  | @hit l target w w' p _ _ _ hc => exact (World.sheds_of_hit hc).extension?_eq ha
  | @missed l target w w' _ _ hl hc =>
    show w'.store.extension? c = if l.object.strong? = some c then none else w.store.extension? c
    rw [World.extension?_of_miss hc ha, hl, Value.strong?]
    simp only [Option.some.injEq, eq_comm]
  | worked w _ _ x _ => exact (x.sheds host w).extension?_eq ha
  | built w _ t x => exact World.extension?_publish ha
  | refused _ _ _ _ | asked _ _ _ _ _ _ | replied _ _ _ _ | failed _ _ _ _ => rfl

/-- A record that is in a slot was there before the step, or it was built. -/
theorem Step.extension?_cases {r : Record} (h : Step host n x a y)
    (hr : y.world.store.extension? c = some r) : x.world.store.extension? c = some r ∨
      ∃ b, a = .built b ∧ c = b.target ∧ r = b.record := by
  rw [h.extension?_eq (Store.alive_of_extension? hr), Act.slot] at hr
  cases a with
  | built b =>
    dsimp only [Act.product?] at hr
    split at hr
    · rename_i hc
      cases hr
      exact .inr ⟨b, rfl, hc, rfl⟩
    · exact .inl hr
  | _ =>
    dsimp only [Act.product?] at hr
    split at hr
    · cases hr
    · exact .inl hr

/-! ## Counters -/

theorem Work.stats_eq {β : Type} (host : Host) (x : Work β) (w : World) :
    (x.apply host w).2.cache.stats = w.cache.stats := by
  cases x with
  | key name =>
    show (w.key name).2.cache.stats = _
    rw [World.key]
    split <;> rfl
  | _ => rfl

/-- How many records a step discards. -/
def Turn.discarded (t : Turn) : Nat :=
  ((t.act.empties).bind t.before.store.extension?).isSome.toNat

/-- What a step adds to the counters. -/
theorem Step.stats_eq (h : Step host n x a y)
    (hsteady : ∀ d ∈ (Turn.mk a x.world y.world).deeds, d.Steady) :
    y.world.cache.stats =
      { hits := x.world.cache.stats.hits + a.isHit.toNat
        builds := x.world.cache.stats.builds + a.product?.isSome.toNat
        invalidations := x.world.cache.stats.invalidations +
          (Turn.mk a x.world y.world).discarded } := by
  cases h with
  | changed _ => exact hsteady _ List.mem_cons_self
  | invalidated w _ _ v =>
    show (w.invalidate v).2.cache.stats = _
    rw [World.invalidate]
    cases hv : v.strong? with
    | none => simp [Turn.discarded, Act.empties, hv, Act.isHit, Act.product?]
    | some target =>
      cases hx : w.store.extension? target <;>
        simp [Turn.discarded, Act.empties, hv, hx, Act.isHit, Act.product?, World.discard,
          World.sweepKeys, World.onStore, World.count]
  | @hit l target w w' p _ _ hl hc =>
    obtain ⟨r, hr, hf, -⟩ := World.cached?_eq_some_iff.1 (congrArg Prod.fst hc)
    rw [World.cached?_of_fresh hr hf] at hc
    cases hc
    rfl
  | @missed l target w w' _ _ hl hc =>
    rcases World.miss_cases hc with ⟨hx, rfl⟩ | ⟨r, hx, rfl⟩
    · simp [Turn.discarded, Act.empties, hl, Value.strong?, hx, Act.isHit, Act.product?]
    · simp [Turn.discarded, Act.empties, hl, Value.strong?, hx, Act.isHit, Act.product?,
        World.discard, World.sweepKeys, World.onStore, World.count]
  | worked w _ _ x _ => exact x.stats_eq host w
  | built w _ t x => rfl
  | refused _ _ _ _ | asked _ _ _ _ _ _ | replied _ _ _ _ | failed _ _ _ _ => rfl

end MetaCache
