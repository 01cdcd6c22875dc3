import MetaCache.Proofs.Play.Runs
import MetaCache.Proofs.Play.Times
/-!
# Nothing partial is ever seen

Host code may look things up, discard and redefine while a build waits for it, and builds may wait
for one another to any depth. What can be seen in a slot at any moment has nevertheless been
compiled to its end, and a shadow has one descriptor for each attribute of the one reply that it was
compiled from. A build that is still under way has put nothing into any slot, and one that has
failed never does.

* `Product.Sound.shadow`: a shadow that has been built is whole.
* `Stage.Whole`, `nothing_partial`: every slot, at every moment of every run.
-/

namespace MetaCache

variable {host : Host} {w w₀ : World} {f : Holding} {ts : List Turn} {x : Stage}

/-- A shadow that has been built is the shadow of an instance metaobject, which was asked once for
its attributes. -/
theorem Product.Sound.shadow {b : Product} {s : Shadow} (h : b.Sound host)
    (hs : b.compiled.content = .shadow s) :
    ∃ inst attrs, b.lookup = .shadow inst ∧ s.From host inst b.queries attrs := by
  rw [Sound, Task.At] at h
  cases hl : b.lookup with
  | shadow inst =>
    rw [hl] at h
    obtain ⟨s', hx, hshadow⟩ := Lookup.comesIn_shadow h
    rw [hx] at hs
    cases hs
    obtain ⟨attrs, hattrs⟩ := hshadow.shadow
    exact ⟨inst, attrs, rfl, hattrs⟩
  | descriptor attr cls =>
    rw [hl] at h
    obtain ⟨d, hx, -⟩ := Lookup.comesIn_descriptor h
    rw [hx] at hs
    cases hs

/-- What can be seen in slots at a moment of a play. -/
structure Stage.Whole (host : Host) (ts : List Turn) (x : Stage) : Prop where
  /-- What is in a slot has been compiled to its end without an error, by a build that is in the
  play from its beginning to its end with all of its queries and their replies, and is as it was
  then. -/
  built : ∀ c r, x.world.store.extension? c = some r → ∃ b ∈ products ts, b.target = c ∧
    b.record = r ∧ b.Sound host ∧ b.toTask.Timed ts ∧ (∃ w, ⟨.built b, b.ended, w⟩ ∈ ts) ∧
    x.world.store.payload? r.payload = some b.compiled.content
  /-- A shadow in a slot has one descriptor for each attribute that the instance metaobject replied
  with when it was asked, which was once; these are in the same order, and each was compiled without
  an error. -/
  shadows : ∀ c r s, x.world.store.extension? c = some r →
    x.world.store.payload? r.payload = some (.shadow s) → ∃ b ∈ products ts, b.target = c ∧
      b.record = r ∧ b.lookup = .shadow (.ref c) ∧ b.toTask.Timed ts ∧
      ∃ attrs, s.From host (.ref c) b.queries attrs ∧
        s.descriptors.map (Value.ref ·.origin) = attrs
  /-- No build that is under way has put anything into a slot. -/
  unfinished : ∀ t ∈ x.tasks, ∀ b ∈ products ts, b.number ≠ t.number
  /-- No build that has failed has put anything into a slot, be it before or after. -/
  failed : ∀ t ∈ failures ts, ∀ b ∈ products ts, b.number ≠ t.number
  /-- Whatever happens next, nothing but a build that ends without an error puts anything into a
  slot. -/
  next : ∀ a y c r, Step host ts.length x a y → y.world.store.extension? c = some r →
    x.world.store.extension? c = some r ∨ ∃ b, a = .built b ∧ c = b.target ∧ r = b.record

/-- A play that begins with empty slots shows nothing partial. -/
theorem Play.whole (ho : host.Orderly) (hu : ∀ c, w₀.store.extension? c = none)
    (hcov : w₀.Covers f) (h : Play host w₀ f ts x) : x.Whole host ts := by
  have hkept := h.kept ho hu hcov
  obtain ⟨g, hg⟩ := (h.backed ho hcov).covers
  have hslots : ∀ c r, x.world.store.extension? c = some r → ∃ b ∈ products ts, b.target = c ∧
      b.record = r ∧ x.world.store.payload? r.payload = some b.compiled.content := by
    intro c r hr
    obtain ⟨b, hb, hc, rfl⟩ := hkept.slots c r hr
    obtain ⟨p, hp⟩ := Option.isSome_iff_exists.1 (Store.Covers.payload_isSome hg hr)
    rw [(hkept.lasts b hb).content p hp] at hp
    exact ⟨b, hb, hc, rfl, hp⟩
  refine ⟨fun c r hr => ?_, fun c r s hr hs => ?_, fun t ht b hb => ?_, h.apart.failed,
    fun a y c r hstep hr => hstep.extension?_cases hr⟩
  · obtain ⟨b, hb, hc, hrecord, hcontent⟩ := hslots c r hr
    obtain ⟨htimed, hended⟩ := h.timed_product b hb
    exact ⟨b, hb, hc, hrecord, hkept.sound b hb, htimed, hended, hcontent⟩
  · obtain ⟨b, hb, rfl, hrecord, hcontent⟩ := hslots c r hr
    obtain ⟨inst, attrs, hl, hfrom⟩ :=
      (hkept.sound b hb).shadow (Option.some.inj (hcontent.symm.trans hs))
    have hinst : inst = .ref b.target := by
      have hobject := (hkept.called b hb).object
      rwa [hl] at hobject
    subst hinst
    exact ⟨b, hb, rfl, hrecord, hl, (h.timed_product b hb).1, attrs, hfrom, hfrom.origins⟩
  · exact (h.apart.ended_ne b.number (.inl ⟨b, hb, rfl⟩) t.mark (List.mem_map_of_mem ht)).symm

/-- In every run nothing partial is ever seen: each moment of a run at which host code is at work is
one of a play that tells the same deeds, so that what is asked and replied in the one is asked and
replied in the other, and no moment of a play shows anything partial. -/
theorem nothing_partial (ho : host.Orderly) (hu : ∀ c, w₀.store.extension? c = none)
    (hcov : w₀.Covers f) :
    (∀ ds w, Reaches host w₀ f ds w →
      ∃ ts frames g, Play host w₀ f ts ⟨w, frames, .code g⟩ ∧ deeds ts = ds) ∧
    ∀ ts x, Play host w₀ f ts x → x.Whole host ts :=
  ⟨fun _ _ h => h.play, fun _ _ h => h.whole ho hu hcov⟩

/-- The shadow of an instance metaobject that looked itself up while it was compiled is whole. -/
theorem nothing_partial_nestedWorld :
    (nestedWorld.store.extension? 2).isSome ∧ ∃ ds ts frames g,
      Reaches plainHost {} 0 ds nestedWorld ∧
      Play plainHost {} 0 ts ⟨nestedWorld, frames, .code g⟩ ∧
      deeds ts = ds ∧ (Stage.mk nestedWorld frames (.code g)).Whole plainHost ts := by
  have hr : plainHost.Registered := registered_scriptedHost _
  obtain ⟨ds, hreach, -⟩ := reaches_nestedWorld
  obtain ⟨hplay, hall⟩ := nothing_partial hr.orderly (fun _ => rfl) World.covers_empty
  obtain ⟨ts, frames, g, hts, hds⟩ := hplay _ _ hreach
  exact ⟨by decide +kernel, ds, ts, frames, g, hreach, hts, hds, hall ts _ hts⟩

end MetaCache
