import MetaCache.Proofs.Introspection.Compile
/-!
# The dialogue of a lookup

What a lookup compiles, if it compiles at all, depends on the answers that the host gives in its
dialogue. Upkeep of the cache makes no difference to it.

* `Lookup.protocol`, `Lookup.follows_fresh`: the dialogue, and that compiling follows it.
* `Lookup.run_protocol_congr`: it has one result in worlds with the same view.
* `Lookup.Ends.unmoved`: a lookup leaves the view as it is.
-/

namespace MetaCache

variable {host : Host} {w₀ w w' : World} {f k : Holding} {c : CellId}

namespace Lookup

/-- What a lookup asks when it compiles. -/
def protocol (cache : Cache) : Lookup → Protocol Payload
  | shadow inst => do
    let s ← Protocol.shadow cache.nameHash cache.config inst
    return .shadow s
  | descriptor attr _ => do
    let d ← Protocol.descriptor cache.nameHash attr
    return .descriptor d

/-- The class that governs what a lookup has compiled. -/
def governor? : Lookup → Payload → Option CellId
  | shadow _, .shadow s => some s.cls
  | descriptor _ cls, .descriptor _ => some cls
  | _, _ => none

theorem governor?_bare (l : Lookup) (x : Payload) : l.governor? x.bare = l.governor? x := by
  cases l <;> cases x <;> rfl

theorem protocol_congr {cache cache' : Cache} (h : cache'.settings = cache.settings) (l : Lookup) :
    l.protocol cache' = l.protocol cache := by
  have hconfig : cache'.config = cache.config := congrArg (·.1) h
  have hhash : cache'.nameHash = cache.nameHash := congrArg (·.2.2) h
  cases l with
  | shadow inst => rw [protocol, protocol, hconfig, hhash]
  | descriptor attr cls => rw [protocol, protocol, hhash]

/-- Compiling follows the dialogue. -/
theorem follows_fresh (hc : host.Consistent) (ho : host.Orderly) (hs : host.Strong w₀) {l : Lookup}
    (hl : l.object = .ref c) (hk : 0 < k (.cell c)) :
    Follows host w₀ k (l.fresh host) 0 (l.protocol w₀.cache) Payload.bare
      fun x => holding [.held x] := by
  have hheld : (Value.ref c).Held k := by
    intro d hd
    cases hd
    exact hk
  cases l with
  | shadow inst =>
    cases hl
    refine (follows_compile_shadow hc ho hs hheld).bind (q := fun s => .done (Payload.shadow s))
      fun s _ => ?_
    exact .pure rfl rfl
  | descriptor attr cls =>
    cases hl
    refine (follows_compile hc ho hs hheld rfl).bind (q := fun d => .done (Payload.descriptor d))
      fun d _ => ?_
    have hd : holding d.owned = holding [.held (.descriptor d)] :=
      (holding_held (.descriptor d)).symm
    rw [hd]
    exact .pure rfl rfl

end Lookup

/-- The end of a dialogue is known from the end of the computation. -/
theorem Traces.eq_map {α β : Type} {bare : α → β} {post : α → Holding}
    {o : Except Halt (Except Error α × World)} {r : Except Halt (Except Error β)}
    (h : Traces host w₀ k bare post o r) : r = o.map fun p => p.1.map bare := by
  cases h <;> rfl

namespace Lookup

variable {l : Lookup}

/-- The dialogue has one result in worlds with the same view: both are what compiling comes to. -/
theorem run_protocol_congr (hc : host.Consistent) (ho : host.Orderly) (hs : host.Strong w)
    (hw : host.Unmoved w w') (hcov : w'.Covers f) (hl : l.object = .ref c)
    (ha : w'.store.alive c) : (l.protocol w'.cache).run (host.view w') =
      (l.protocol w.cache).run (host.view w) := by
  have hret := hcov.retain fun o (ho : o ∈ [Owned.cell c]) => by
    rw [List.mem_singleton.1 ho]
    exact ha
  have hpos : 0 < (holding [.cell c] + f) (.cell c) :=
    Nat.add_pos_left (holding_pos rfl List.mem_cons_self) _
  have hup := hc.unmoved_of_upkeep ho (.retain w' [.cell c]) hret
  rw [← zero_add (holding [.cell c] + f)] at hret
  have h := follows_fresh hc ho hs hl hpos _ (hw.trans hup) hret
  have h' := follows_fresh hc ho (hw.strong hs) hl hpos _ hup hret
  exact h'.eq_map.trans h.eq_map.symm

/-- What a lookup compiles when it finds nothing fresh follows the dialogue from there. -/
theorem traces_of_miss (hc : host.Consistent) (ho : host.Orderly) (hs : host.Strong w)
    (hl : l.object = .ref c) (hk : 0 < k (.cell c)) (hcov : w.Covers k)
    (hm : w.cached? host l.wanted c = (none, w')) : host.Unmoved w w' ∧ w'.Covers k ∧
      Traces host w' k Payload.bare (fun x => holding [.held x]) (l.fresh host w')
        ((l.protocol w'.cache).run (host.view w')) := by
  have hup := World.Upkeep.cached? w host l.wanted c
  have hslot : (w.cached? host l.wanted c).2.Covers _ := hcov.cached? l.wanted
  rw [hm] at hup hslot
  have hw := hc.unmoved_of_upkeep ho hup hslot
  refine ⟨hw, ?_, follows_fresh hc ho (hw.strong hs) hl hk w' (.refl w') hslot⟩
  rwa [← zero_add k]

/-- A lookup leaves the view as it is. -/
theorem Ends.unmoved (hc : host.Consistent) (ho : host.Orderly) (hs : host.Strong w)
    {r : Except Error PayloadId} (h : l.Ends host c w r w') (hl : l.object = .ref c)
    (hk : 0 < k (.cell c)) (hcov : w.Covers k) (hcov' : w'.Covers f) : host.Unmoved w w' := by
  cases h with
  | hit hm =>
    have hup := World.Upkeep.cached? w host l.wanted c
    rw [hm] at hup
    exact hc.unmoved_of_upkeep ho hup hcov'
  | failed hm hf _ =>
    obtain ⟨hw₁, -, ht⟩ := traces_of_miss hc ho hs hl hk hcov hm
    rw [hf] at ht
    generalize (l.protocol _).run (host.view _) = r at ht
    cases ht with
    | fails hw₂ _ => exact hw₁.trans hw₂
  | @built x g gov w₁ w₂ hm hf _ _ =>
    obtain ⟨hw₁, -, ht⟩ := traces_of_miss hc ho hs hl hk hcov hm
    rw [hf] at ht
    generalize (l.protocol _).run (host.view _) = r at ht
    cases ht with
    | ends hw₂ _ =>
      exact (hw₁.trans hw₂).trans (hc.unmoved_of_upkeep ho (.publish w₂ c x g gov) hcov')

end Lookup

end MetaCache
