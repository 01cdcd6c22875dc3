import MetaCache.Proofs.Play.Origins
import MetaCache.Proofs.Play.Runs
import MetaCache.Proofs.Play.Slots
/-!
# Coherence of lookups

A lookup is answered from the extension slot exactly if what was put there last is still good: it is
of the kind wanted, it has not been discarded since, and its class is there with the generation
under which it was compiled. All that went into it was then said under the generation that the class
has now, and the lookup asks the host nothing. This holds in every run, however lookups, discards
and redefinitions follow one another or are nested: a run is told deed for deed by a play, and
lookups are coherent at every moment of every play.

* `Lookup.Coherent`: the property.
* `lookup_coherent`: every lookup in every run has it.
-/

namespace MetaCache

variable {host : Host} {w₀ : World} {f : Holding} {ts : List Turn}

/-- What is true of a lookup of the cell `c` in the world `w`, to which the steps have led. -/
structure Lookup.Coherent (host : Host) (ts : List Turn) (w : World) (c : CellId) (l : Lookup) :
    Prop where
  /-- The slot answers exactly if what was put there last, and not discarded since, is of the kind
  wanted and has a class that is alive and of the same generation. The answer is that payload. -/
  answered_iff : ∀ p, (w.cached? host l.wanted c).1 = some p ↔ ∃ b, attached? ts c = some b ∧
    b.record.payload = p ∧ l.wanted.accepts b.compiled.content ∧
    w.store.alive b.compiled.governor ∧
    host.generation w b.compiled.governor = b.compiled.generation
  /-- The structure is in the store as it was compiled, under one generation of its class. -/
  settled : ∀ p, (w.cached? host l.wanted c).1 = some p → ∃ b, attached? ts c = some b ∧
    b.target = c ∧ b.record.payload = p ∧ w.store.payload? p = some b.compiled.content ∧
    ∃ since stamp qs, b.Settled host ts since stamp qs
  /-- The methods of the host make no difference to an answer from the slot. -/
  silent : ∀ p, (w.cached? host l.wanted c).1 = some p → ∀ inner : Host, inner.Reads host →
    l.run inner w = .ok (.ok p, (w.cached? host l.wanted c).2)

/-- At every moment of a play lookups are coherent. -/
theorem Play.coherent (ho : host.Orderly) (hu : ∀ c, w₀.store.extension? c = none)
    (hcov : w₀.Covers f) {x : Stage} (h : Play host w₀ f ts x) {l : Lookup} {c : CellId}
    (hl : l.object = .ref c) (ha : x.world.store.alive c) : l.Coherent host ts x.world c := by
  have hiff (p : PayloadId) : (x.world.cached? host l.wanted c).1 = some p ↔ _ :=
    h.cached?_eq_some_iff ho hu hcov ha
  refine ⟨hiff, fun p hp => ?_, fun p hp inner hr => ?_⟩
  · obtain ⟨b, hb, rfl, -, halive, hgen⟩ := (hiff p).1 hp
    obtain ⟨htarget, hbuilt⟩ := mem_of_attached? hb
    exact ⟨b, hb, htarget, rfl, (h.stands ho hu hcov ha hb).2,
      h.settled ho hu hcov hbuilt halive hgen⟩
  · rw [Lookup.run_eq hl, World.cached?_congr hr]
    generalize x.world.cached? host l.wanted c = a at hp
    obtain ⟨o, w'⟩ := a
    cases hp
    rfl

/-- In every run, and at every point of it, lookups are coherent: each moment of a run at which host
code is at work is one of a play that tells the same deeds, and at every moment of a play every
lookup of an object that is there is coherent. -/
theorem lookup_coherent (ho : host.Orderly) (hu : ∀ c, w₀.store.extension? c = none)
    (hcov : w₀.Covers f) :
    (∀ ds w, Reaches host w₀ f ds w →
      ∃ ts frames g, Play host w₀ f ts ⟨w, frames, .code g⟩ ∧ deeds ts = ds) ∧
    ∀ ts x, Play host w₀ f ts x → ∀ (l : Lookup) (c : CellId), l.object = .ref c →
      x.world.store.alive c → l.Coherent host ts x.world c :=
  ⟨fun _ _ h => h.play, fun _ _ h _ _ hl ha => h.coherent ho hu hcov hl ha⟩

/-- A shadow that was compiled a moment ago is found, and all that is said of such lookups is true
of it. -/
theorem lookup_coherent_pointWorld :
    let w := (shadowFor plainHost (.ref 2)).leaves pointWorld
    (w.cached? plainHost .shadow 2).1 = some 0 ∧
      ∃ ds ts frames g, Reaches plainHost {} 0 ds w ∧
        Play plainHost {} 0 ts ⟨w, frames, .code g⟩ ∧ deeds ts = ds ∧
        (Lookup.shadow (.ref 2)).Coherent plainHost ts w 2 := by
  intro w
  have hr : plainHost.Registered := registered_scriptedHost _
  have hrun : (Lookup.shadow (.ref 2)).run plainHost pointWorld = .ok (.ok 0, w) :=
    Build.eq_of_answer? (by decide +kernel)
  have hlookup := Host.Acts.lookup (holding [.cell 1]) (.refl plainHost) hrun fun q hq =>
    actsFor_plainHost q (Lookup.answers_of_mem_queries hq)
  obtain ⟨ds, hact, -⟩ := (Host.Acts.change change_pointWorld rfl).trans hlookup
  have hreach : Reaches plainHost {} 0 (ds ++ []) w := .after hact .here
  obtain ⟨hplay, hall⟩ := lookup_coherent hr.orderly (fun _ => rfl) World.covers_empty
  obtain ⟨ts, frames, g, hts, hds⟩ := hplay _ _ hreach
  have halive : w.store.alive 2 := by decide +kernel
  exact ⟨by decide +kernel, _, ts, frames, g, hreach, hts, hds,
    hall ts _ hts (.shadow (.ref 2)) 2 rfl halive⟩

end MetaCache
