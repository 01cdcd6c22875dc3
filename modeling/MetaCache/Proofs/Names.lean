import MetaCache.Proofs.History.Answers
import MetaCache.Proofs.History.Commands
/-!
# Shadows and the names of classes

A shadow keeps the class it was compiled for. The class that a lookup answers for is therefore the
one that its name led to when the shadow was compiled. Removing the class from its name takes
nothing from the shadow: it is answered as long as its class stays under the same generation, also
when another class has got the name.

* `Shadow.CompiledIn`: the lookup of a run that compiled a shadow, and what became of the name.
* `shadowFor_class`: the class of a shadow that is answered, and when a shadow is answered.
-/

namespace MetaCache

open Script (bareAttribute)

variable {host : Host} {w₀ w w' : World} {f₀ f k : Holding} {t : List Command} {c : CellId}

/-- The shadow was compiled from the instance metaobject in `c` by a lookup of the run, which the
commands `t` have led to `w`: the run came to this lookup, and went on from it. Its class still has
its name exactly if it was not removed from it since. -/
def Shadow.CompiledIn (host : Host) (w₀ : World) (f₀ : Holding) (t : List Command) (w : World)
    (f : Holding) (c : CellId) (s : Shadow) : Prop :=
  ∃ t₁ t₂ w₁ f₁ w₂ f₂, t = t₁ ++ .lookup (.shadow (.ref c)) :: t₂ ∧
    Run host w₀ f₀ t₁ w₁ f₁ ∧ (Command.lookup (.shadow (.ref c))).Does host w₁ f₁ w₂ f₂ ∧
    Run host w₂ f₂ t₂ w f ∧ s.Compiled host c w₁ ∧
    (host.class? w s.className = some s.cls ↔ Command.remove s.className ∉ t₂)

/-- Where the shadow in a slot comes from. -/
theorem Run.compiledIn (hr : host.Registered) (hs : host.SideEffectFree)
    (hu : ∀ d, w₀.store.extension? d = none) (hcov : w₀.Covers f₀) (hrun : Run host w₀ f₀ t w f)
    {r : Record} {s : Shadow} (ha : w.store.alive c) (hx : w.store.extension? c = some r)
    (hp : w.store.payload? r.payload = some (.shadow s)) :
    r.governor = s.cls ∧ r.generation = s.generation ∧ s.CompiledIn host w₀ f₀ t w f c := by
  induction hrun with
  | start =>
    rw [hu c] at hx
    cases hx
  | @step t cmd w w' f f' hrun hd ih =>
    have hcovw := hrun.covers hr hs hcov
    rcases hd.slot hr hs hcovw ha hx hp with ⟨hx₀, hp₀⟩ | ⟨rfl, hgov, hgen, hcomp⟩
    · obtain ⟨hgov, hgen, t₁, t₂, w₁, f₁, w₂, f₂, rfl, hrun₁, hlook, hrun₂, hcomp, hiff⟩ :=
        ih (Store.alive_of_extension? hx₀) hx₀ hp₀
      refine ⟨hgov, hgen, t₁, t₂ ++ [cmd], w₁, f₁, w₂, f₂, ?_, hrun₁, hlook, hrun₂.step hd,
        hcomp, ?_⟩
      · rw [List.append_assoc, List.cons_append]
      · have hlt := Store.lt_next_of_alive (Store.Covers.alive_cls hcovw hp₀)
        rw [hd.class?_iff hr hs hlt, hiff, List.mem_append, List.mem_singleton, not_or, ne_comm]
    · refine ⟨hgov, hgen, t, [], w, f, w', f', rfl, hrun, hd, .start, hcomp, ?_⟩
      have hlt := Store.lt_next_of_alive (hr.orderly.class? hcovw hcomp.class?)
      rw [hd.class?_iff hr hs hlt]
      simp [hcomp.class?]

/-- A lookup answers a shadow of the class that was found, when the shadow was compiled, by the name
that the instance metaobject answered then; this is the class found by that name now exactly if no
class has been removed from it since. What is in the slot is answered exactly if its class has the
generation under which it was compiled, whatever has become of the name. -/
theorem shadowFor_class (hr : host.Registered) (hs : host.SideEffectFree)
    (hu : ∀ d, w₀.store.extension? d = none) (hcov : w₀.Covers f₀)
    (hrun : Run host w₀ f₀ t w (holding (Lookup.shadow (.ref c)).owned + k)) {p : PayloadId}
    (hlook : shadowFor host (.ref c) w = .ok (.ok p, w')) :
    (∃ s, w'.store.payload? p = some (.shadow s) ∧
      s.CompiledIn host w₀ f₀ (t ++ [.lookup (.shadow (.ref c))]) w'
        (holding [.payload p] + (holding (Lookup.shadow (.ref c)).owned + k)) c) ∧
    ∀ r s, w.store.extension? c = some r → w.store.payload? r.payload = some (.shadow s) →
      ((w.cached? host .shadow c).1 = some r.payload ↔
        host.generation w s.cls = s.generation) := by
  have hpos : 0 < holding (Lookup.shadow (.ref c)).owned (.cell c) := Lookup.object_pos rfl
  rw [← Lookup.run_shadow] at hlook
  constructor
  · have hrun' := hrun.step (.lookup k hlook)
    have hcov' := hrun'.covers hr hs hcov
    have ha' : w'.store.alive c :=
      hcov'.alive (Nat.add_pos_right _ (Nat.add_pos_left hpos _))
    obtain ⟨r, x, hx, rfl, hp, hacc⟩ :=
      (Lookup.ends hr.orderly hs rfl hlook).answered hcov' ha'
    cases x with
    | shadow s => exact ⟨s, hp, (hrun'.compiledIn hr hs hu hcov ha' hx hp).2.2⟩
    | _ => cases hacc
  · intro r s hx hp
    have hcovw := hrun.covers hr hs hcov
    have ha : w.store.alive c := hcovw.alive (Nat.add_pos_left hpos _)
    obtain ⟨hgov, hgen, -⟩ := hrun.compiledIn hr hs hu hcov ha hx hp
    have hfresh : w.isFresh host .shadow r ↔ host.generation w s.cls = s.generation := by
      rw [World.isFresh_iff, hgov, hgen]
      -- the class is there, because the shadow keeps it
      exact ⟨fun h => h.2.2, fun h => ⟨⟨_, hp, rfl⟩, Store.Covers.alive_cls hcovw hp, h⟩⟩
    rw [World.cached?_eq_some_iff, ← hfresh]
    constructor
    · rintro ⟨r', hr', hf, -⟩
      cases hx.symm.trans hr'
      exact hf
    · exact fun hf => ⟨r, hx, hf, rfl⟩

/-! ## A name that has changed hands -/

/-- The shadow that a handle leads to. -/
def Store.shadow? (s : Store) (p : PayloadId) : Option Shadow :=
  match s.payload? p with
  | some (.shadow x) => some x
  | _ => none

/-- A world in which an instance metaobject was looked up, and then its class was removed from its
name and another one defined. -/
def renamedWorld : World :=
  ((((shadowFor plainHost (.ref 2)).leaves pointWorld).removeClass "Point").2.defineClass "Point"
    []).2

/-- The shadow of the class that was removed is answered, and not one of the class that has the name
now. -/
theorem shadowFor_removed_renamedWorld :
    (shadowFor plainHost (.ref 2)).answer? renamedWorld = some 0 ∧
      (renamedWorld.store.shadow? 0).map (fun s => (s.className, s.cls)) = some ("Point", 1) ∧
      plainHost.class? renamedWorld "Point" = some 3 := by
  decide +kernel

theorem run_renamedWorld : Run plainHost {} 0
    [.other, .define "Point" [.ref 0], .other, .lookup (.shadow (.ref 2)), .remove "Point",
      .define "Point" []] renamedWorld
    (holding (Lookup.shadow (.ref 2)).owned +
      (holding [.cell 3, .cell 1, .payload 0] + holding [.cell 1])) := by
  have hr : plainHost.Registered := registered_scriptedHost _
  have hattr := change_newCell hr.orderly (.object (.attributeMeta (bareAttribute "x"))) {}
  have hinst := (change_newCell hr.orderly (.object (.instanceMeta "Point" [])) classWorld).frame
    (holding [.cell 1])
  have hnone : (Referent.object (.instanceMeta "Point" [])).owned = [] := rfl
  rw [hnone, holding_nil, zero_add] at hinst
  have hdefine : Command.Does plainHost _ _ _ _ _ := .define "Point" [.ref 0]
    (World.onStore (fun s => (s.newCell (.object (.attributeMeta (bareAttribute "x")))).2) {}) 0
  rw [add_zero, add_zero] at hdefine
  have hlook : shadowFor plainHost (.ref 2) pointWorld =
      .ok (.ok 0, (shadowFor plainHost (.ref 2)).leaves pointWorld) :=
    Build.eq_of_answer? (by decide +kernel)
  have hshadow := Command.Does.lookup (l := .shadow (.ref 2)) (holding [.cell 1]) hlook
  have hredefine : Command.Does plainHost _ _ _ _ _ := .define "Point" []
    (((shadowFor plainHost (.ref 2)).leaves pointWorld).removeClass "Point").2
    (holding [.cell 1] +
      (holding [.payload 0] + (holding (Lookup.shadow (.ref 2)).owned + holding [.cell 1])))
  have hempty : holding (ownedByAll []) = 0 := rfl
  have hnew : ((((shadowFor plainHost (.ref 2)).leaves pointWorld).removeClass
    "Point").2.defineClass "Point" []).1 = 3 := by decide +kernel
  rw [hempty, zero_add, hnew] at hredefine
  have hremove : Command.Does plainHost _ _ _ _ _ := .remove "Point"
    ((shadowFor plainHost (.ref 2)).leaves pointWorld)
    (holding [.payload 0] + (holding (Lookup.shadow (.ref 2)).owned + holding [.cell 1]))
  have hold : (((shadowFor plainHost (.ref 2)).leaves pointWorld).removeClass "Point").1 =
    some 1 := by decide +kernel
  rw [hold] at hremove
  have hend : holding (Lookup.shadow (.ref 2)).owned +
      (holding [.cell 3, .cell 1, .payload 0] + holding [.cell 1]) = holding [.cell 3] +
      (holding [.cell 1] +
        (holding [.payload 0] + (holding (Lookup.shadow (.ref 2)).owned + holding [.cell 1]))) := by
    rw [holding_cons (.cell 3), holding_cons (.cell 1)]
    ac_rfl
  rw [hend]
  exact .step (.step (.step (.step (.step (.step .start (.other hattr rfl)) hdefine)
    (.other hinst rfl)) hshadow) hremove) hredefine

/-- What the theorem says of this lookup. -/
theorem shadowFor_class_renamedWorld :
    let w' := (shadowFor plainHost (.ref 2)).leaves renamedWorld
    shadowFor plainHost (.ref 2) renamedWorld = .ok (.ok 0, w') ∧
      (∃ s, w'.store.payload? 0 = some (.shadow s) ∧ s.CompiledIn plainHost {} 0
        [.other, .define "Point" [.ref 0], .other, .lookup (.shadow (.ref 2)), .remove "Point",
          .define "Point" [], .lookup (.shadow (.ref 2))] w'
        (holding [.payload 0] + (holding (Lookup.shadow (.ref 2)).owned +
          (holding [.cell 3, .cell 1, .payload 0] + holding [.cell 1]))) 2) ∧
      ∀ r s, renamedWorld.store.extension? 2 = some r →
        renamedWorld.store.payload? r.payload = some (.shadow s) →
        ((renamedWorld.cached? plainHost .shadow 2).1 = some r.payload ↔
          plainHost.generation renamedWorld s.cls = s.generation) := by
  have hlook : shadowFor plainHost (.ref 2) renamedWorld =
      .ok (.ok 0, (shadowFor plainHost (.ref 2)).leaves renamedWorld) :=
    Build.eq_of_answer? (by decide +kernel)
  exact ⟨hlook, shadowFor_class (registered_scriptedHost _) sideEffectFree_plainHost
    (fun _ => rfl) World.covers_empty run_renamedWorld hlook⟩

end MetaCache
