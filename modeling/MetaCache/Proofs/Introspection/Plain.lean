import MetaCache.Proofs.History.Answers
import MetaCache.Proofs.Introspection.View
/-!
# Metaobjects that answer without code are consistent

What the host of a script replies with no depth left for host code depends on the objects that are
there, on the names of the registry and on nothing else. Upkeep of the cache leaves all of them as
they are, and so does an answer.

* `plainReply_eq`: the same replies after upkeep.
* `consistent_plainHost`: the host is consistent.
* `strong_plainHost`: its replies contain no weak references if its objects hold none.
-/

namespace MetaCache

variable {w w' : World} {f : Holding} {c d : CellId}

theorem World.Covers.alive_of_method {name : String} (h : w.Covers f)
    (hc : w.registry.methods.lookup name = some c) : w.store.alive c := by
  refine h.alive_of_root ?_
  simp only [roots, List.mem_append, List.mem_map]
  exact .inl (.inr ⟨(name, c), mem_of_lookup hc, rfl⟩)

theorem Store.Keeps.object?_eq {s s' : Store} (h : s.Keeps s') {v : Value}
    (hv : ∀ c, v.cell? = some c → s'.alive c) : s'.object? v = s.object? v := by
  cases v with
  | ref c =>
    simp only [Store.object?, Value.strong?, Option.bind_eq_bind, Option.bind_some]
    rw [h.referent?_eq (hv c rfl)]
  | _ => rfl

namespace World.Upkeep

variable (h : w.Upkeep w')

include h

theorem objectIn?_eq (hc : w'.store.alive c) : w'.objectIn? c = w.objectIn? c :=
  World.objectIn?_congr (h.keeps.referent?_eq hc)

theorem class?_eq (name : String) : w'.class? name = w.class? name := by
  rw [World.class?, World.class?, h.classes]

theorem plainHalt_eq (hd : w'.store.alive d) : plainHalt w' d = plainHalt w d := by
  have hcode : w'.store.code? (.ref d) = w.store.code? (.ref d) :=
    h.keeps.code?_eq fun c hc => by
      cases hc
      exact hd
  rw [plainHalt, plainHalt, hcode]

theorem registeredReply_eq (hcov : w'.Covers f) (hc : w'.store.alive c) (m : String) :
    registeredReply w' c m = registeredReply w c m := by
  have htext : w'.store.cellText c = w.store.cellText c := by
    rw [Store.cellText, Store.cellText, h.keeps.referent?_eq hc]
  rw [registeredReply, registeredReply, ← h.methods, htext]
  cases hm : w'.registry.methods.lookup m with
  | none => rfl
  | some d => exact congrArg Except.error (h.plainHalt_eq (hcov.alive_of_method hm))

theorem attributesReply_eq (hcov : w'.Covers f) (name : String) :
    attributesReply w' name = attributesReply w name := by
  rw [attributesReply, attributesReply, ← h.class?_eq]
  cases hn : w'.class? name with
  | none => rfl
  | some d =>
    dsimp only
    rw [h.objectIn?_eq (hcov.alive_of_class? hn)]

theorem objectReply_eq (hcov : w'.Covers f) (hc : w'.store.alive c) (o : Option Object)
    (m : String) : objectReply w' c o m = objectReply w c o m := by
  unfold objectReply
  rw [h.registeredReply_eq hcov hc]
  split
  · rw [h.attributesReply_eq hcov]
  · rfl

/-- Upkeep makes no difference to a reply. -/
theorem plainReply_eq (hcov : w'.Covers f) {v : Value}
    (hv : ∀ c, v.cell? = some c → w'.store.alive c) (m : String) :
    plainReply w' v m = plainReply w v m := by
  cases v with
  | ref c =>
    have hc := hv c rfl
    rw [plainReply, plainReply, h.objectIn?_eq hc]
    split
    · rfl
    · exact h.objectReply_eq hcov hc _ m
  | _ => rfl

end World.Upkeep

theorem indifferent_plainHost : plainHost.Indifferent where
  callMethod {w w' f v m} h hcov hi := by
    have hfst (w : World) : (plainHost.callMethod v m.name w).map Prod.fst =
        plainReply w v m.name := by
      rw [callMethod_plain]
      cases plainReply w v m.name <;> rfl
    rw [hfst, hfst, h.plainReply_eq hcov hi]
  derivesFrom {w w' f v base} h _ hi := by
    show (w'.store.object? v).any (·.derivesFrom base) =
      (w.store.object? v).any (·.derivesFrom base)
    rw [h.keeps.object?_eq hi]
  class? h _ := funext h.class?_eq

theorem consistent_plainHost : plainHost.Consistent where
  toSideEffectFree := sideEffectFree_plainHost
  toIndifferent := indifferent_plainHost
  unmoved {q f} hq hcov := by
    have hr : plainHost.Registered := registered_scriptedHost _
    have hcov' := (answers_quiet hr hq).covers f (by rwa [zero_add])
    exact indifferent_plainHost.unmoved_of_upkeep hr.orderly (answers_upkeep hq) hcov'

/-- A host whose cells hold no weak references hands out none. -/
theorem strong_plainHost (h : ∀ e ∈ w.store.cells.entries,
    ∀ p ∈ e.2.content.referent.owned, p.plain?.all Share.isStrong) : plainHost.Strong w := by
  intro v m vs _ hview x hx
  have hreply : plainReply w v m.name = .ok (.ok vs) := by
    have hview : (plainHost.callMethod v m.name w).map Prod.fst = .ok (.ok vs) := hview
    rw [callMethod_plain] at hview
    cases hp : plainReply w v m.name with
    | error e => rw [hp] at hview; cases hview
    | ok reply => rw [hp] at hview; exact congrArg Except.ok (Except.ok.inj hview)
  obtain ⟨c, o, ho, hown⟩ := hands_plainReply hreply x hx
  obtain ⟨y, hy, hyo⟩ := Option.map_eq_some_iff.1 (World.objectIn?_eq_some.1 ho)
  obtain ⟨e, he, rfl⟩ := Option.map_eq_some_iff.1 hy
  cases x with
  | weak d =>
    have hd : Owned.weakCell d ∈ e.content.referent.owned := by
      rw [hyo]
      exact hown _ List.mem_cons_self
    cases h _ (mem_of_lookup he) _ hd
  | _ => rfl

end MetaCache
