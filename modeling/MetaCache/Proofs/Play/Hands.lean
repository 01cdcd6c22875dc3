import MetaCache.Proofs.Ownership.Slot
import MetaCache.Proofs.Play.Basic
/-!
# Who holds what in a play

At every moment of a play the store covers what whoever is at work has in hand, together with what
the builds that wait have, and what the callers of these builds have. So nobody loses what he holds,
and an object that is looked up is there until the lookup has ended.

* `Frame.Holds`, `World.Backs`, `Stage.Backed`: the builds that wait, and the invariant.
* `Step.backed`, `Play.backed`: a step keeps it, and so does a play.
-/

namespace MetaCache

variable {host : Host} {w w' w₀ : World} {f f' f₀ g : Holding} {n : Nat}

/-- Work keeps what is held besides. -/
theorem Work.covers {β : Type} (ho : host.Orderly) {x : Work β} (h : w.Covers (x.takes + g)) :
    (x.apply host w).2.Covers (x.gives (x.apply host w).1 + g) := by
  cases x with
  | read f => exact h
  | release os =>
    show (w.onStore (·.release os)).Covers (0 + g)
    rw [zero_add]
    exact h.release
  | note n => exact h
  | retainWeak c =>
    have h : w.Covers (0 + g) := h
    rw [zero_add] at h
    exact h.retain fun o ho => by rw [List.mem_singleton.1 ho]; rfl
  | key name =>
    have h : w.Covers (0 + g) := h
    rw [zero_add] at h
    exact h.key name
  | upgrade v => exact h.withStore fun k hk => hk.upgrade
  | findClass name =>
    have h : w.Covers (0 + g) := h
    rw [zero_add] at h
    show (w.onStore (·.retain (ownedByCell? (host.class? w name)))).Covers
      (holding (ownedByCell? (host.class? w name)) + g)
    cases hc : host.class? w name with
    | none => rwa [ownedByCell?, holding_nil, zero_add]
    | some c => exact h.retain fun o ho' => by rw [List.mem_singleton.1 ho']; exact ho.class? h hc

/-- What a build ends with. -/
def Compiled.holding (x : Compiled) : Holding := MetaCache.holding [.held x.content]

/-- The caller of a build holds what it has passed, and it was there when the build began. -/
structure Task.Called (t : Task) : Prop where
  object : t.lookup.object = .ref t.target
  caller : ∃ g, t.caller = holding t.lookup.owned + g
  began : ∃ g, t.began.Covers (t.caller + g)

theorem Task.Called.target_pos {t : Task} (h : t.Called) : 0 < t.caller (.cell t.target) := by
  obtain ⟨g, hcaller⟩ := h.caller
  rw [hcaller]
  exact Nat.add_pos_left (Lookup.object_pos h.object) _

/-- The class that is named is there when the build begins. -/
theorem Task.Called.class_alive {t : Task} (h : t.Called) {attr : Value} {cls : CellId}
    (hl : t.lookup = .descriptor attr cls) : t.began.store.alive cls := by
  obtain ⟨g, hcaller⟩ := h.caller
  obtain ⟨k, hk⟩ := h.began
  rw [hcaller, hl] at hk
  exact hk.alive (Nat.add_pos_left (Nat.add_pos_left (Lookup.class_pos attr cls) _) _)

/-- The build has `kept` in hand while it waits. -/
def Frame.Holds (fr : Frame) (kept : Holding) : Prop :=
  fr.task.Called ∧
    ∀ reply, (fr.next reply).Balanced (holding (ownedByReply reply) + kept) Compiled.holding

/-- Nobody holds what is not there. -/
def World.Covered (w : World) : Prop := ∃ f, w.Covers f

/-- The world covers `f`, and what the builds that wait and their callers hold. -/
def World.Backs (w : World) : List Frame → Holding → Prop
  | [], f => w.Covers f
  | fr :: frames, f => ∃ kept, fr.Holds kept ∧ w.Backs frames (f + (kept + fr.task.caller))

/-- The invariant. -/
def Stage.Backed (x : Stage) : Prop :=
  match x.focus with
  | .code f => x.world.Backs x.frames f
  | .cache t rest =>
    t.Called ∧ ∃ kept, rest.Balanced kept Compiled.holding ∧
      x.world.Backs x.frames (kept + t.caller)

namespace World.Backs

variable {frames : List Frame}

theorem mono (h : w.Backs frames (f + g)) (hcov : ∀ k, w.Covers (f + k) → w'.Covers (f' + k)) :
    w'.Backs frames (f' + g) := by
  induction frames generalizing g with
  | nil => exact hcov g h
  | cons fr frames ih =>
    obtain ⟨kept, hkept, hrest⟩ := h
    rw [add_assoc] at hrest
    refine ⟨kept, hkept, ?_⟩
    rw [add_assoc]
    exact ih hrest

/-- A look into a slot gives a share of what it answers. -/
theorem cached? {l : Lookup} {c : CellId} {o : Option PayloadId} (h : w.Backs frames f)
    (hc : w.cached? host l.wanted c = (o, w')) :
    w'.Backs frames (holding (o.map Owned.payload).toList + f) := by
  rw [← zero_add f] at h
  refine h.mono fun k hk => ?_
  rw [zero_add] at hk
  have hcov : (w.cached? host l.wanted c).2.Covers
      (holding ((w.cached? host l.wanted c).1.map Owned.payload).toList + k) := hk.cached? l.wanted
  rw [hc] at hcov
  exact hcov

theorem covers (h : w.Backs frames f) : ∃ g, w.Covers (f + g) := by
  induction frames generalizing f with
  | nil =>
    refine ⟨0, ?_⟩
    rw [add_zero]
    exact h
  | cons fr frames ih =>
    obtain ⟨kept, -, hrest⟩ := h
    obtain ⟨g, hg⟩ := ih hrest
    exact ⟨kept + fr.task.caller + g, by rwa [add_assoc] at hg⟩

end World.Backs

theorem Stage.Backed.covers {x : Stage} (h : x.Backed) : x.world.Covered := by
  obtain ⟨w, frames, focus⟩ := x
  cases focus with
  | code f => exact (World.Backs.covers h).imp' _ fun _ hg => hg
  | cache t rest =>
    obtain ⟨-, kept, -, hrest⟩ := h
    exact hrest.covers.imp' _ fun _ hg => hg

/-- A step robs nobody. -/
theorem Step.backed (ho : host.Orderly) {x y : Stage} {a : Act} (h : Step host n x a y)
    (hx : x.Backed) : y.Backed := by
  cases h with
  | @changed w w' frames f f' hch =>
    have hx : w.Backs frames f := hx
    rw [← add_zero f] at hx
    show w'.Backs frames f'
    rw [← add_zero f']
    exact hx.mono hch.covers
  | invalidated w frames f v =>
    have hx : w.Backs frames f := hx
    show (w.invalidate v).2.Backs frames f
    rcases w.invalidate_cases v with hw | ⟨target, r, n, hr, hw⟩
    · rw [hw]
      exact hx
    · rw [hw, ← add_zero f]
      rw [← add_zero f] at hx
      exact hx.mono fun k hk => hk.discard hr n
  | refused w frames f _ => exact hx
  | hit frames f hl hc => exact World.Backs.cached? hx hc
  | @missed l c w w' frames f hl hc =>
    have hbacks := World.Backs.cached? hx hc
    refine ⟨⟨hl, ⟨f, rfl⟩, ?_⟩, 0, l.balanced_compilation host, hbacks⟩
    obtain ⟨g, hg⟩ := hbacks.covers
    exact ⟨g, zero_add (holding l.owned + f) ▸ hg⟩
  | worked w frames t x next =>
    obtain ⟨hcalled, kept, ⟨g, rfl, hnext⟩, hrest⟩ := hx
    rw [add_assoc] at hrest
    refine ⟨hcalled, _, hnext _, ?_⟩
    rw [add_assoc]
    exact hrest.mono fun k hk => x.covers ho hk
  | asked w frames t v m next =>
    obtain ⟨hcalled, kept, hnext, hrest⟩ := hx
    refine ⟨kept, ⟨hcalled, hnext⟩, ?_⟩
    rw [zero_add]
    exact hrest
  | replied w fr frames reply =>
    obtain ⟨kept, ⟨hcalled, hnext⟩, hrest⟩ := hx
    refine ⟨⟨hcalled.object, hcalled.caller, hcalled.began⟩, _, hnext reply, ?_⟩
    rw [add_assoc]
    exact hrest
  | built w frames t x =>
    obtain ⟨hcalled, kept, hkept, hrest⟩ := hx
    rw [show kept = x.holding from hkept] at hrest
    exact hrest.mono fun k hk => hk.publish _ _
  | failed w frames t e =>
    obtain ⟨hcalled, kept, hkept, hrest⟩ := hx
    rw [show kept = holding e.owned from hkept] at hrest
    exact hrest

theorem Steps.backed (ho : host.Orderly) {x y : Stage} {ts : List Turn} (h : Steps host n x ts y)
    (hx : x.Backed) : y.Backed := by
  induction h with
  | refl => exact hx
  | snoc _ hs ih => exact hs.backed ho ih

/-- Nobody is robbed in a play. -/
theorem Play.backed (ho : host.Orderly) (hcov : w₀.Covers f₀) {ts : List Turn} {x : Stage}
    (h : Play host w₀ f₀ ts x) : x.Backed :=
  Steps.backed ho h hcov

end MetaCache
