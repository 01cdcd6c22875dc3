import MetaCache.Proofs.Play.Times
/-!
# Where a structure comes from

The generation of a structure is read at one moment of its build: before anything is asked, if it is
a descriptor, and as soon as the class has been resolved, if it is a shadow. All that goes into the
structure is asked after that. If the class has this generation still, then it has had it ever
since, at every step and so at every query whose reply went into the structure.

* `Product.CompiledFrom`: the moment, and what was compiled from there on.
* `Product.Settled`: a structure whose class has not moved.
* `Play.stamped`: every build has read the generation of its class.
* `Play.settled`: a structure is settled if its class has the same generation now.
-/

namespace MetaCache

variable {host : Host} {w₀ : World} {f₀ : Holding} {x : Stage} {ts : List Turn} {b : Product}

/-- What `b` was compiled from: after the step `since` the generation was read in the world `stamp`,
and then the queries `qs` were made. On any host that replies to these queries in the same way the
code of the compilation comes to the same structure. -/
inductive Product.CompiledFrom (host : Host) (b : Product) : Nat → World → List Query → Prop where
  /-- A descriptor goes by the class that the lookup named, and by the generation that this class
  had when the build began. -/
  | descriptor {d : Descriptor}
    (lookup : b.lookup = .descriptor (.ref b.target) b.compiled.governor)
    (generation : b.compiled.generation = host.generation b.began b.compiled.governor)
    (compiled : ∀ inner : Host, inner.Reads host → (∀ q ∈ b.queries, inner.Answers q) →
      Descriptor.compile inner (.ref b.target) b.began = .ok (.ok d, b.ended))
    (content : b.compiled.content = .descriptor d) :
    CompiledFrom host b b.number b.began b.queries
  /-- A shadow goes by the class that was found by the reply to the first query, and by the
  generation that this class had when it was found. -/
  | shadow {q : Query} {qs : List Query} {s : Nat × Nat} {ss : List (Nat × Nat)} {stamp : World}
    {empty filled : Shadow} (lookup : b.lookup = .shadow (.ref b.target))
    (queries : b.queries = q :: qs) (spans : b.spans = s :: ss)
    (invocant : q.invocant = .ref b.target)
    (method : q.method = .ofInstance .className) (before : q.before = b.began)
    (resolved : ∀ inner : Host, inner.Reads host → inner.Answers q →
      Shadow.resolve inner (.ref b.target) b.began = .ok (.ok empty, stamp))
    (governor : b.compiled.governor = empty.cls)
    (generation : b.compiled.generation = host.generation stamp empty.cls)
    (compiled : ∀ inner : Host, inner.Reads host → (∀ q ∈ qs, inner.Answers q) →
      Shadow.fill inner (.ref b.target) empty stamp = .ok (.ok filled, b.ended))
    (content : b.compiled.content = .shadow filled) :
    CompiledFrom host b s.2 stamp qs

/-- The generation of `b` was read after the step `since`, when its class was there with that
generation, and the queries that went into `b` were made and replied to after that. -/
structure Product.Stamped (host : Host) (ts : List Turn) (b : Product) (since : Nat) (stamp : World)
    (qs : List Query) : Prop where
  compiled : b.CompiledFrom host since stamp qs
  stamped : stamp.store.alive b.compiled.governor ∧
    host.generation stamp b.compiled.governor = b.compiled.generation
  step : ∃ t, ts[since]? = some t ∧ t.after.store.alive b.compiled.governor ∧
    host.generation t.after b.compiled.governor = b.compiled.generation
  queries : ∀ q ∈ qs, ⟨.asked q.invocant q.method, q.before, q.before⟩ ∈ ts.drop since ∧
    ⟨.replied q.reply, q.after, q.after⟩ ∈ ts.drop since

/-- The build of `b` is in the play from its beginning to its end, and from the step after which the
generation was read its class has been there with that generation, also whenever a query was made
or replied to that went into the structure. -/
structure Product.Settled (host : Host) (ts : List Turn) (b : Product) (since : Nat) (stamp : World)
    (qs : List Query) : Prop extends b.Stamped host ts since stamp qs where
  timed : b.toTask.Timed ts
  built : ∃ w, ⟨.built b, b.ended, w⟩ ∈ ts
  steps : ∀ t ∈ ts.drop since, t.after.store.alive b.compiled.governor ∧
    host.generation t.after b.compiled.governor = b.compiled.generation

/-- The build of a descriptor has read the generation of the class that was named. -/
theorem Product.Sound.stamped_descriptor {attr : Value} {cls : CellId}
    (h : b.Sound host) (hl : b.lookup = .descriptor attr cls) (hcalled : b.toTask.Called)
    (ht : b.toTask.Timed ts) : b.Stamped host ts b.number b.began b.queries := by
  have hattr : attr = .ref b.target := by
    have hobject := hcalled.object
    rwa [hl] at hobject
  rw [Sound, Task.At, hl] at h
  obtain ⟨d, hx, hd⟩ := Lookup.comesIn_descriptor h
  obtain ⟨w, hbegan⟩ := ht.began
  have halive : b.began.store.alive b.compiled.governor := by
    rw [hx]
    exact hcalled.class_alive hl
  have hgen : host.generation b.began b.compiled.governor = b.compiled.generation := by rw [hx]
  refine ⟨.descriptor (d := d) ?_ hgen.symm (fun inner hr hq => ?_) ?_, ⟨halive, hgen⟩,
    ⟨_, hbegan, halive, hgen⟩, ht.queries⟩
  · rw [hl, hx, hattr]
  · rw [← hattr, ← Dialogue.run_descriptor]
    exact hd.run_eq hr hq
  · rw [hx]

/-- The build of a shadow has read the generation of its class when it was found, and this was right
after the first query. -/
theorem Product.Sound.stamped_shadow {inst : Value} (ho : host.Orderly) (h : b.Sound host)
    (hl : b.lookup = .shadow inst) (hcalled : b.toTask.Called) (ht : b.toTask.Timed ts) :
    ∃ since stamp qs, b.Stamped host ts since stamp qs := by
  have hinst : inst = .ref b.target := by
    have hobject := hcalled.object
    rwa [hl] at hobject
  rw [Sound, Task.At, hl] at h
  obtain ⟨s, hx, hs⟩ := Lookup.comesIn_shadow h
  obtain ⟨empty, stamp, q, qs, found, hqs, hresolve, hres, hfill⟩ := hs.of_shadow
  obtain ⟨span, rest, hspans, hreplied, hafter⟩ := ht.first hqs
  obtain ⟨hcls, hgen⟩ := (hfill.obeys (Dialogue.obeys_fill _ empty)).1
  have hgov : b.compiled.governor = empty.cls := by rw [hx, hcls]
  have hgen : b.compiled.generation = host.generation stamp empty.cls := by
    rw [hx, hgen, hres.generation]
  have halive : stamp.store.alive empty.cls := by
    obtain ⟨f, hf⟩ := hres.holds
    have hfound := ho.class? hf hres.class?
    have hret := hf.retain fun o (hm : o ∈ [Owned.cell empty.cls]) => by
      rw [List.mem_singleton.1 hm]
      exact hfound
    rw [hres.world]
    exact hret.alive (Nat.add_pos_left (holding_pos rfl List.mem_cons_self) _)
  -- between the reply and the moment when the generation was read no class has moved
  have hsheds : q.after.store.Sheds stamp.store := by
    rw [hres.world]
    exact hres.sheds.trans (found.store.sheds_retain _)
  have hstill := ho.generation (hsheds.keeps.referent?_eq halive)
  refine ⟨span.2, stamp, qs, .shadow (by rw [hl, hinst]) hqs hspans (hinst ▸ hres.invocant)
    hres.method hres.before (fun inner hr hq => ?_) hgov hgen (fun inner hr hq => ?_) (by rw [hx]),
    ?_, ⟨_, hreplied, ?_⟩, hafter⟩
  · rw [← hinst, ← Dialogue.run_resolve, Dialogue.resolve_congr hr]
    exact hresolve.run_eq hr (List.forall_mem_singleton.2 hq)
  · rw [← hinst, ← Dialogue.run_fill]
    exact hfill.run_eq hr hq
  · rw [hgov]
    exact ⟨halive, hgen.symm⟩
  · rw [hgov, hgen]
    exact ⟨hsheds.keeps.alive halive, hstill.symm⟩

/-- Every build has read the generation of its class. -/
theorem Play.stamped (ho : host.Orderly) (hu : ∀ c, w₀.store.extension? c = none)
    (hcov : w₀.Covers f₀) (h : Play host w₀ f₀ ts x) (hb : b ∈ products ts) :
    ∃ since stamp qs, b.Stamped host ts since stamp qs := by
  have hkept := h.kept ho hu hcov
  obtain ⟨ht, -⟩ := h.timed_product b hb
  cases hl : b.lookup with
  | descriptor attr cls =>
    exact ⟨_, _, _, (hkept.sound b hb).stamped_descriptor hl (hkept.called b hb) ht⟩
  | shadow inst => exact (hkept.sound b hb).stamped_shadow ho hl (hkept.called b hb) ht

/-- What has been built is settled, if its class is there with the same generation now. -/
theorem Play.settled (ho : host.Orderly) (hu : ∀ c, w₀.store.extension? c = none)
    (hcov : w₀.Covers f₀) (h : Play host w₀ f₀ ts x) (hb : b ∈ products ts)
    (ha : x.world.store.alive b.compiled.governor)
    (hg : host.generation x.world b.compiled.governor = b.compiled.generation) :
    ∃ since stamp qs, b.Settled host ts since stamp qs := by
  obtain ⟨since, stamp, qs, hs⟩ := h.stamped ho hu hcov hb
  obtain ⟨ht, hbuilt⟩ := h.timed_product b hb
  obtain ⟨t, hstep, halive, hgen⟩ := hs.step
  refine ⟨since, stamp, qs, hs, ht, hbuilt, fun t' ht' => ?_⟩
  rw [← hgen] at hg ⊢
  exact h.steady ho hstep halive ha hg ht'

end MetaCache
