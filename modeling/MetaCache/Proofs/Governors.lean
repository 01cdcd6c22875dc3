import MetaCache.Proofs.History.Quiet
import MetaCache.Proofs.Play.Origins
import MetaCache.Proofs.Play.Runs
import MetaCache.Proofs.Play.Slots
/-!
# Descriptors looked up under several classes

A descriptor is put into its slot under the class that the lookup named, and a later lookup judges
it by that class, whichever class it names itself. As long as an attribute is looked up under one
class, what is answered was compiled under the generation that the class has. If two classes are
named in turn, a redefinition of the one is overlooked as long as the other has not moved.

* `Product.Under`: compiled under the present generation of a class.
* `Overlooks`: a lookup that is answered from the slot although its class has moved.
* `Product.Answered`: what a lookup answers was in the slot, or the lookup has compiled it.
* `not_overlooks_of_governor`: an attribute that is looked up under one class.
* `Returns`: the steps with which a play goes on while a lookup runs, and what it returns.
* `descriptorFor_under_iff`: the lookups that overlook a redefinition are the only ones that answer
  what was compiled under another generation.
-/

namespace MetaCache

open Script (bareAttribute)

variable {host : Host} {w₀ w w' : World} {f k : Holding} {ts : List Turn} {x : Stage}
  {c cls : CellId} {b : Product} {ds : List Deed}

/-- The descriptor was compiled when `cls` was there, with the generation that it has in `w`. -/
def Product.Under (host : Host) (b : Product) (cls : CellId) (w : World) : Prop :=
  b.began.store.alive cls ∧ host.generation b.began cls = host.generation w cls

/-- In the slot of `c` is a descriptor whose class has not moved since it was compiled, but `cls`
has. -/
def Overlooks (host : Host) (ts : List Turn) (w : World) (c cls : CellId) : Prop :=
  ∃ b, attached? ts c = some b ∧ Wanted.descriptor.accepts b.compiled.content ∧
    w.store.alive b.compiled.governor ∧
    host.generation w b.compiled.governor = b.compiled.generation ∧ ¬ b.Under host cls w

/-- Where the answer of a lookup in `w` comes from, which leaves `w'`: it was in the slot, or else
the lookup has compiled it in the world that was left when nothing was found there, and has put it
into the slot under the class that it names. -/
inductive Product.Answered (host : Host) (ts : List Turn) (w : World) (c cls : CellId) (b : Product)
    (w' : World) : Prop where
  | found (slot : w.cached? host .descriptor c = (some b.record.payload, w'))
    (attached : attached? ts c = some b) : Answered host ts w c cls b w'
  | built {d : Descriptor} (slot : w.cached? host .descriptor c = (none, b.began))
    (lookup : b.lookup = .descriptor (.ref c) cls)
    (queries : b.queries = (Lookup.descriptor (.ref c) cls).queries host w)
    (compiled : Descriptor.compile host (.ref c) b.began = .ok (.ok d, b.ended))
    (product : b.compiled = ⟨.descriptor d, host.generation b.began cls, cls⟩)
    (world : w' = (b.ended.publish c (.descriptor d) (host.generation b.began cls) cls).2) :
    Answered host ts w c cls b w'

theorem Product.under_congr (hg : host.generation w' cls = host.generation w cls) :
    b.Under host cls w' ↔ b.Under host cls w := by
  rw [Product.Under, Product.Under, hg]

/-- A descriptor that has not gone stale was compiled under the generation that its class has. -/
theorem Play.under (ho : host.Orderly) (hu : ∀ d, w₀.store.extension? d = none)
    (hcov : w₀.Covers f) (h : Play host w₀ f ts x) (hb : b ∈ products ts)
    (hacc : Wanted.descriptor.accepts b.compiled.content)
    (hg : host.generation w b.compiled.governor = b.compiled.generation) :
    b.Under host b.compiled.governor w := by
  obtain ⟨since, stamp, qs, hs⟩ := h.stamped ho hu hcov hb
  have hstamped := hs.stamped
  cases hs.compiled with
  | descriptor _ _ _ _ => exact ⟨hstamped.1, hstamped.2.trans hg.symm⟩
  | shadow _ _ _ _ _ _ _ _ _ _ hcontent =>
    rw [hcontent] at hacc
    cases hacc

/-- Nothing is overlooked while an attribute is looked up under the class under which it was
compiled last. -/
theorem not_overlooks_of_governor (ho : host.Orderly) (hu : ∀ d, w₀.store.extension? d = none)
    (hcov : w₀.Covers f) (h : Play host w₀ f ts x)
    (hcls : ∀ b, attached? ts c = some b → b.compiled.governor = cls) :
    ¬ Overlooks host ts w c cls := by
  rintro ⟨b, hb, hacc, -, hg, hn⟩
  have hunder := h.under ho hu hcov (mem_of_attached? hb).2 hacc hg
  rw [hcls b hb] at hunder
  exact hn hunder

/-- A lookup that finds nothing in its slot overlooks nothing. -/
theorem Play.not_overlooks_of_miss (ho : host.Orderly) (hu : ∀ d, w₀.store.extension? d = none)
    (hcov : w₀.Covers f) (h : Play host w₀ f ts x) (hac : x.world.store.alive c)
    (hmiss : x.world.cached? host .descriptor c = (none, w')) :
    ¬ Overlooks host ts x.world c cls := by
  rintro ⟨b, hb, hacc, hal, hgen, -⟩
  have hsome := (h.cached?_eq_some_iff ho hu hcov hac).2 ⟨b, hb, rfl, hacc, hal, hgen⟩
  cases hsome.symm.trans (congrArg Prod.fst hmiss)

/-- The play `ts`, which has come to `w`, goes on with the steps `us` of a lookup of `c` under `cls`
that returns in `y`: it returns the payload `p` of the structure `b`. -/
structure Returns (host : Host) (w₀ : World) (f : Holding) (ts : List Turn) (w : World)
    (c cls : CellId) (p : PayloadId) (us : List Turn) (b : Product) (y : Stage) : Prop where
  play : Play host w₀ f (ts ++ us) y
  deeds : deeds us = (Lookup.descriptor (.ref c) cls).deeds host w quietDeeds ++
    [.returned (.descriptor (.ref c) cls) (.ok p) y.world]
  attached : attached? (ts ++ us) c = some b
  payload : b.record.payload = p
  answered : b.Answered host ts w c cls y.world
  stamped : ∃ since stamp qs, b.Stamped host (ts ++ us) since stamp qs

/-- The caller of a lookup holds the attribute and the class. -/
theorem Play.named (ho : host.Orderly) (hcov : w₀.Covers f) {frames : List Frame} {g g' : Holding}
    (h : Play host w₀ f ts ⟨w, frames, .code g⟩)
    (hg : g = holding (Lookup.descriptor (.ref c) cls).owned + g') :
    w.store.alive c ∧ w.store.alive cls := by
  obtain ⟨k, hk⟩ := World.Backs.covers (h.backed ho hcov)
  rw [hg] at hk
  have hclass := Lookup.class_pos (.ref c) cls
  exact ⟨hk.alive (Nat.add_pos_left (Nat.add_pos_left (Lookup.object_pos rfl) _) _),
    hk.alive (Nat.add_pos_left (Nat.add_pos_left hclass _) _)⟩

section

variable {frames : List Frame} {g : Holding} {p : PayloadId} (ho : host.Orderly)
  (hu : ∀ d, w₀.store.extension? d = none) (hcov : w₀.Covers f)
  (h : Play host w₀ f ts ⟨w, frames, .code (holding (Lookup.descriptor (.ref c) cls).owned + g)⟩)

include ho hu hcov h

/-- What is answered from the slot was compiled under the present generation of the class named
unless it is overlooked that it was not. -/
theorem Play.returns_of_hit (hhit : w.cached? host .descriptor c = (some p, w')) :
    ∃ us b, Returns host w₀ f ts w c cls p us b ⟨w', frames, .code (holding [.payload p] +
        (holding (Lookup.descriptor (.ref c) cls).owned + g))⟩ ∧
      (b.Under host cls w' ↔ ¬ Overlooks host ts w c cls) := by
  have hs := World.sheds_of_hit hhit
  obtain ⟨b, hb, hp, hacc, hal, hgen⟩ :=
    (h.cached?_eq_some_iff ho hu hcov (h.named ho hcov rfl).1).1 (congrArg Prod.fst hhit)
  have hstep : Tells host (0 + ts.length) _ _ _ _ :=
    .single (.hit (l := .descriptor (.ref c) cls) frames g rfl hhit)
  have hplay : Play host w₀ f _ _ := h.trans hstep.steps
  have hslot : attached? (ts ++ [⟨.hit (.descriptor (.ref c) cls) p, w, w'⟩]) c = some b := by
    rw [attached?_concat]
    exact hb
  refine ⟨_, b, ⟨hplay, ?_, hslot, hp, .found (hp ▸ hhit) hb,
    hplay.stamped ho hu hcov (mem_of_attached? hslot).2⟩, ?_⟩
  · rw [Lookup.deeds, Lookup.queries_of_hit (l := .descriptor (.ref c) cls) (.refl host) rfl hhit]
    exact hstep.deeds
  · have hcls := (hplay.named ho hcov (add_left_comm _ _ _)).2
    rw [Product.under_congr (ho.generation (hs.keeps.referent?_eq hcls))]
    constructor
    · rintro hun ⟨b', hb', -, -, -, hn⟩
      cases hb.symm.trans hb'
      exact hn hun
    · intro hn
      by_contra hun
      exact hn ⟨b, hb, hacc, hal, hgen, hun⟩

/-- What the lookup has compiled itself goes into the slot under the class named. -/
theorem Play.returns_of_miss (hs : host.SideEffectFree) {w₁ : World}
    (hmiss : w.cached? host .descriptor c = (none, w₁))
    (hlook : (Lookup.descriptor (.ref c) cls).run host w = .ok (.ok p, w')) :
    ∃ us b, Returns host w₀ f ts w c cls p us b ⟨w', frames, .code (holding [.payload p] +
        (holding (Lookup.descriptor (.ref c) cls).owned + g))⟩ ∧
      (b.Under host cls w' ↔ ¬ Overlooks host ts w c cls) := by
  obtain ⟨hac, hacls⟩ := h.named ho hcov rfl
  have hlt := Store.lt_next_of_alive hacls
  have hbegan := Host.Still.of_upkeep ho (.cached? w host .descriptor c)
  rw [hmiss] at hbegan
  have hended := (Lookup.ends ho hs rfl hlook).still ho
  rw [Lookup.run_of_miss (l := .descriptor (.ref c) cls) (.refl host) rfl hmiss,
    Build.bind_apply] at hlook
  cases hrun : ((Lookup.descriptor (.ref c) cls).compilation host).run host w₁ with
  | error e =>
    rw [hrun] at hlook
    cases hlook
  | ok a =>
    obtain ⟨r, w₂⟩ := a
    rw [hrun] at hlook
    cases r with
    | error e => cases hlook
    | ok o =>
      cases hlook
      obtain ⟨us, b, hbuilt, hl, rfl, rfl, hqueries, hcompiled, rfl⟩ :=
        Lookup.plays_built (l := .descriptor (.ref c) cls) (.refl host)
          (fun q hq => (hs.activity (Lookup.answers_of_mem_queries hq)).plays) rfl hmiss hrun g
          (0 + ts.length) frames
      obtain ⟨d, rfl, hd⟩ := Lookup.comesIn_descriptor (Dialogue.comes_queries hrun)
      have hplay : Play host w₀ f _ _ := h.trans hbuilt.steps
      have hslot (w' : World) :
          attached? (ts ++ (us ++ [⟨.built b, b.ended, w'⟩])) b.target = some b := by
        rw [← List.append_assoc, attached?_concat, Act.attach]
        exact if_pos rfl
      have hbuilds := fun w' => (mem_of_attached? (hslot w')).2
      have halive := ((hplay.kept ho hu hcov).called b (hbuilds _)).class_alive hl
      have halive' := (hplay.named ho hcov (add_left_comm _ _ _)).2
      refine ⟨_, b, ⟨hplay, hbuilt.deeds, hslot _, rfl, .built hmiss hl hqueries ?_ hcompiled rfl,
        hplay.stamped ho hu hcov (hbuilds _)⟩,
        iff_of_true ⟨halive, ?_⟩ (h.not_overlooks_of_miss ho hu hcov hac hmiss)⟩
      · rw [← Dialogue.run_descriptor]
        exact hd.run_eq (.refl host) fun q hq => Dialogue.answers_of_mem_queries hq
      · exact (hbegan.generation_eq hlt halive).trans (hended.generation_eq hlt halive').symm

end

/-- A lookup answers a descriptor that was compiled under the generation that the class named has
now, unless what is in the slot was compiled under a class that has not moved, and the class named
has moved since. The run before is a play that tells the same deeds, and any such play goes on with
the steps of the lookup. -/
theorem descriptorFor_under_iff (ho : host.Orderly) (hs : host.SideEffectFree)
    (hu : ∀ d, w₀.store.extension? d = none) (hcov : w₀.Covers f)
    (hrun : Activity host w₀ f ds w (holding (Lookup.descriptor (.ref c) cls).owned + k))
    {p : PayloadId} (hlook : descriptorFor host (.ref c) cls w = .ok (.ok p, w')) :
    (∃ ts, Play host w₀ f ts ⟨w, [], .code (holding (Lookup.descriptor (.ref c) cls).owned + k)⟩ ∧
        deeds ts = ds) ∧
      ∀ ts frames g,
        Play host w₀ f ts ⟨w, frames, .code (holding (Lookup.descriptor (.ref c) cls).owned + g)⟩ →
        ∃ us b, Returns host w₀ f ts w c cls p us b ⟨w', frames, .code (holding [.payload p] +
            (holding (Lookup.descriptor (.ref c) cls).owned + g))⟩ ∧
          (b.Under host cls w' ↔ ¬ Overlooks host ts w c cls) := by
  obtain ⟨ts, hts⟩ := hrun.plays 0 []
  refine ⟨⟨ts, hts.steps, hts.deeds⟩, fun ts frames g h => ?_⟩
  cases hc : w.cached? host (Lookup.descriptor (.ref c) cls).wanted c with
  | mk o w₁ =>
    cases o with
    | some q =>
      rw [← Lookup.run_descriptor, Lookup.run_eq rfl, hc] at hlook
      cases hlook
      exact h.returns_of_hit ho hu hcov hc
    | none => exact h.returns_of_miss ho hu hcov hs hc hlook

/-! ## An oversight -/

/-- A world with two classes, of which only the first has an attribute. -/
def twoClassWorld : World :=
  ((classWorld.onStore (·.retain [.cell 0])).defineClass "Line" []).2

/-- The same world after the attribute was looked up under the first class, and the second class was
redefined. -/
def movedWorld : World :=
  (((descriptorFor plainHost (.ref 0) 1).leaves twoClassWorld).bumpClass 2).2

/-- The second class is redefined after the descriptor was compiled, and yet the descriptor is
answered for it. -/
theorem descriptorFor_overlooks_movedWorld :
    (descriptorFor plainHost (.ref 0) 1).answer? twoClassWorld = some 0 ∧
      plainHost.generation twoClassWorld 2 = 0 ∧ plainHost.generation movedWorld 2 = 1 ∧
      (descriptorFor plainHost (.ref 0) 2).answer? movedWorld = some 0 := by
  decide +kernel

theorem change_twoClassWorld : plainHost.Change {} 0 twoClassWorld
    (holding [.cell 2] + (holding [.cell 0] + holding [.cell 1])) := by
  have hr : plainHost.Registered := registered_scriptedHost _
  have hret : plainHost.Change classWorld (holding [.cell 1])
      (classWorld.onStore (·.retain [.cell 0])) (holding [.cell 0] + holding [.cell 1]) :=
    change_retain hr.orderly fun _ _ o ho => by
      rw [List.mem_singleton.1 ho]
      rfl
  have hline := (change_defineClass hr "Line" [] (classWorld.onStore (·.retain [.cell 0]))).frame
    (holding [.cell 0] + holding [.cell 1])
  have hnone : holding (ownedByAll []) = 0 := rfl
  rw [hnone, zero_add] at hline
  exact change_classWorld.trans (hret.trans hline)

theorem activity_movedWorld : ∃ ds, Activity plainHost {} 0 ds movedWorld
    (holding (Lookup.descriptor (.ref 0) 2).owned +
      (holding [.payload 0] + holding [.cell 1])) := by
  have hr : plainHost.Registered := registered_scriptedHost _
  have hrun : descriptorFor plainHost (.ref 0) 1 twoClassWorld =
      .ok (.ok 0, (descriptorFor plainHost (.ref 0) 1).leaves twoClassWorld) :=
    Build.eq_of_answer? (by decide +kernel)
  obtain ⟨ds, hlookup, -⟩ := Host.Acts.lookup (l := .descriptor (.ref 0) 1) (holding [.cell 2])
    (.refl plainHost) hrun fun q hq => actsFor_plainHost q (Lookup.answers_of_mem_queries hq)
  have hbump := (change_bumpClass hr 2
    ((descriptorFor plainHost (.ref 0) 1).leaves twoClassWorld)).frame
      (holding [.payload 0] + (holding (Lookup.descriptor (.ref 0) 1).owned + holding [.cell 2]))
  rw [zero_add] at hbump
  have hstart : holding [.cell 2] + (holding [.cell 0] + holding [.cell 1]) =
      holding (Lookup.descriptor (.ref 0) 1).owned + holding [.cell 2] := by
    rw [add_comm, ← holding_append]
    rfl
  have hend : holding [.payload 0] +
      (holding (Lookup.descriptor (.ref 0) 1).owned + holding [.cell 2]) =
      holding (Lookup.descriptor (.ref 0) 2).owned +
        (holding [.payload 0] + holding [.cell 1]) := by
    simp only [Lookup.owned, Value.owned, holding_append]
    funext x
    simp only [Pi.add_apply]
    omega
  rw [← hend]
  exact ⟨_, .trans (.change (hstart ▸ change_twoClassWorld)) (.trans hlookup (.change hbump))⟩

/-- What the theorem says of this lookup. -/
theorem descriptorFor_under_iff_movedWorld :
    let w := (descriptorFor plainHost (.ref 0) 2).leaves movedWorld
    descriptorFor plainHost (.ref 0) 2 movedWorld = .ok (.ok 0, w) ∧
      ∃ ds ts g, Activity plainHost {} 0 ds movedWorld g ∧ deeds ts = ds ∧
        ∃ us b y, Returns plainHost {} 0 ts movedWorld 0 2 0 us b y ∧ y.world = w ∧
          (b.Under plainHost 2 w ↔ ¬ Overlooks plainHost ts movedWorld 0 2) := by
  intro w
  have hr : plainHost.Registered := registered_scriptedHost _
  have hrun : descriptorFor plainHost (.ref 0) 2 movedWorld = .ok (.ok 0, w) :=
    Build.eq_of_answer? (by decide +kernel)
  obtain ⟨ds, hact⟩ := activity_movedWorld
  obtain ⟨⟨ts, hts, hds⟩, hall⟩ := descriptorFor_under_iff hr.orderly sideEffectFree_plainHost
    (fun _ => rfl) World.covers_empty hact hrun
  obtain ⟨us, b, hreturns, hunder⟩ := hall _ _ _ hts
  exact ⟨hrun, ds, ts, _, hact, hds, us, b, _, hreturns, rfl, hunder⟩

end MetaCache
