import MetaCache.Proofs.Play.Counters
import MetaCache.Proofs.Play.Runs
/-!
# The accounts of the cache

However lookups and discards are nested in host code, the counters tell what has happened. Each
lookup that has come back with an answer is either a hit or a build, and one that has failed is
neither. Whatever was built was discarded, or is still in its slot, or has gone with its object, or
was replaced by a build that found the slot filled; this happens only if host code, while that build
was waiting for it, came to the end of another build of the same object.

* `Deed.answers`: a lookup came back with an answer.
* `Stage.Accounted`, `counters_balance`: the accounts at every moment of every run.
-/

namespace MetaCache

variable {host : Host} {w w₀ : World} {f : Holding} {ts : List Turn} {x : Stage}

/-- A lookup came back with an answer. -/
def Deed.answers : Deed → Bool
  | returned _ (.ok _) _ => true
  | _ => false

/-- An answer is either a hit or a build. -/
theorem Turn.countP_answers (t : Turn) :
    t.deeds.countP Deed.answers = t.act.isHit.toNat + t.act.product?.isSome.toNat := by
  obtain ⟨a, before, after⟩ := t
  cases a <;> rfl

/-- The counters at a moment of a play. -/
structure Stage.Counted (ts : List Turn) (x : Stage) : Prop where
  /-- A hit counts as a hit, a build as a build, and nothing else as either. -/
  each : ∀ t ∈ ts,
    t.after.cache.stats.hits = t.before.cache.stats.hits + t.act.isHit.toNat ∧
      t.after.cache.stats.builds = t.before.cache.stats.builds + t.act.product?.isSome.toNat
  /-- There are as many hits and builds as lookups that came back with an answer. -/
  answered : x.world.cache.stats.hits + x.world.cache.stats.builds =
    (deeds ts).countP Deed.answers
  /-- What was built was discarded, or is in a slot, or has gone with its object, or was
  replaced. -/
  attached : x.world.cache.stats.builds = x.world.cache.stats.invalidations +
    x.world.attachments + (ts.map Turn.finalised).sum + (ts.map Turn.replaced).sum

/-- The accounts at a moment of a play. -/
structure Stage.Accounted (host : Host) (ts : List Turn) (x : Stage) : Prop
    extends x.Counted ts where
  /-- A build that finds its slot filled in the end waited for another one of the same object, which
  began after it and has come to its end. -/
  replaced : ∀ b y, Step host ts.length x (.built b) y → b.found.isSome →
    ∃ b' ∈ products ts, b'.target = b.target ∧ b.number < b'.number

theorem Stage.Counted.step {n : Nat} {a : Act} {y : Stage} (ho : host.Orderly) (h : x.Counted ts)
    (hx : x.Backed) (hs : Step host n x a y)
    (hsteady : ∀ d ∈ (Turn.mk a x.world y.world).deeds, d.Steady) :
    y.Counted (ts ++ [⟨a, x.world, y.world⟩]) := by
  have hstats := hs.stats_eq hsteady
  have hhits : y.world.cache.stats.hits = x.world.cache.stats.hits + a.isHit.toNat := by
    rw [hstats]
  have hbuilds : y.world.cache.stats.builds =
      x.world.cache.stats.builds + a.product?.isSome.toNat := by rw [hstats]
  have hinvalidations : y.world.cache.stats.invalidations =
      x.world.cache.stats.invalidations + (Turn.mk a x.world y.world).discarded := by rw [hstats]
  have hbalance := hs.balance ho hx
  refine ⟨List.forall_mem_append.2 ⟨h.each, List.forall_mem_singleton.2 ⟨hhits, hbuilds⟩⟩, ?_, ?_⟩
  · have hone : (deeds [Turn.mk a x.world y.world]).countP Deed.answers =
        a.isHit.toNat + a.product?.isSome.toNat := by
      rw [deeds, List.flatMap_singleton, Turn.countP_answers]
    rw [deeds_append, List.countP_append, hone, ← h.answered, hhits, hbuilds]
    omega
  · have hattached := h.attached
    rw [List.map_append, List.map_append, List.sum_append, List.sum_append, List.map_singleton,
      List.map_singleton, List.sum_singleton, List.sum_singleton, hbuilds, hinvalidations]
    omega

theorem Play.counted (ho : host.Orderly) (hu : ∀ c, w₀.store.extension? c = none)
    (hz : w₀.cache.stats = {}) (hcov : w₀.Covers f) (h : Play host w₀ f ts x) :
    (∀ d ∈ deeds ts, d.Steady) → x.Counted ts := by
  refine h.induct (P := fun ts x => (∀ d ∈ deeds ts, d.Steady) → x.Counted ts) (fun _ => ?_)
    fun hp ih hs hsteady => ?_
  · have hempty : w₀.attachments = 0 := by simp [World.attachments, hu]
    refine ⟨List.forall_mem_nil _, ?_, ?_⟩
    · rw [hz]
      rfl
    · rw [hz, hempty]
      rfl
  · rw [deeds_append, List.forall_mem_append, deeds, deeds, List.flatMap_singleton] at hsteady
    exact (ih hsteady.1).step ho (hp.backed ho hcov) hs hsteady.2

theorem Play.accounted (ho : host.Orderly) (hu : ∀ c, w₀.store.extension? c = none)
    (hz : w₀.cache.stats = {}) (hcov : w₀.Covers f) (h : Play host w₀ f ts x)
    (hsteady : ∀ d ∈ deeds ts, d.Steady) : x.Accounted host ts :=
  ⟨h.counted ho hu hz hcov hsteady, fun _ _ hbuilt hf => h.guarded.exists_of_found hbuilt hf⟩

/-- In every run whose counters nobody else has touched the accounts are right: there are as many
hits and builds as lookups of the run that came back with an answer, and the moment, like every
other one of the run, is one of a play that tells the same deeds; and the accounts are right at
every moment of every play whose counters nobody else has touched. -/
theorem counters_balance (ho : host.Orderly) (hu : ∀ c, w₀.store.extension? c = none)
    (hz : w₀.cache.stats = {}) (hcov : w₀.Covers f) :
    (∀ ds w, Reaches host w₀ f ds w →
      (∃ ts frames g, Play host w₀ f ts ⟨w, frames, .code g⟩ ∧ deeds ts = ds) ∧
        ((∀ d ∈ ds, d.Steady) →
          w.cache.stats.hits + w.cache.stats.builds = ds.countP Deed.answers)) ∧
    ∀ ts x, Play host w₀ f ts x → (∀ d ∈ deeds ts, d.Steady) → x.Accounted host ts := by
  refine ⟨fun ds w h => ⟨h.play, fun hsteady => ?_⟩, fun _ _ h => h.accounted ho hu hz hcov⟩
  obtain ⟨ts, frames, g, hplay, rfl⟩ := h.play
  exact (hplay.counted ho hu hz hcov hsteady).answered

/-- An instance metaobject that looks itself up whenever it is asked is built twice and found once
before its own lookup comes back, and the shadow that this has built replaces the other one. -/
theorem counters_balance_nestedWorld :
    nestedWorld.cache.stats = { hits := 1, builds := 2 } ∧ nestedWorld.attachments = 1 ∧
      ∃ ds ts frames g, Reaches plainHost {} 0 ds nestedWorld ∧ (∀ d ∈ ds, d.Steady) ∧
        ds.countP Deed.answers = 3 ∧ Play plainHost {} 0 ts ⟨nestedWorld, frames, .code g⟩ ∧
        deeds ts = ds ∧ (Stage.mk nestedWorld frames (.code g)).Accounted plainHost ts := by
  have hr : plainHost.Registered := registered_scriptedHost _
  obtain ⟨ds, hreach, hsteady⟩ := reaches_nestedWorld
  obtain ⟨hrun, hall⟩ := counters_balance hr.orderly (fun _ => rfl) rfl World.covers_empty
  obtain ⟨⟨ts, frames, g, hts, rfl⟩, hanswered⟩ := hrun _ _ hreach
  have hstats : nestedWorld.cache.stats = { hits := 1, builds := 2 } := by decide +kernel
  have hthree := hanswered hsteady
  rw [hstats] at hthree
  exact ⟨hstats, by decide +kernel, _, ts, frames, g, hreach, hsteady, hthree.symm, hts, rfl,
    hall ts _ hts hsteady⟩

end MetaCache
