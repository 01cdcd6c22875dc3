import MetaCache.Proofs.History.Quiet
import MetaCache.Proofs.Introspection.Protocol
/-!
# What a host has to say

The view of a world answers every question that compiling may ask. Of a host whose answers are
consistent it depends on what the host itself keeps, and not on what the cache does: on the shares
it takes, the names it interns, the records it writes and discards.

* `Host.view`: the answers in a world.
* `Host.Unmoved`: two worlds with the same view.
* `Host.Indifferent`, `Host.Consistent`: a host whose answers depend on nothing that the cache does,
  and one that has no side effects besides.
-/

namespace MetaCache

/-- The cell that a reference of either kind points at. -/
def Value.cell? : Value → Option CellId
  | ref c | weak c => some c
  | _ => none

/-- The cell that a question is about. -/
def Inquiry.cell? : Inquiry → Option CellId
  | call v _ | derives v _ | callable v | text v => v.cell?
  | generation c => some c
  | named _ => none

/-- What the question is about is there. -/
def Inquiry.Live (i : Inquiry) (w : World) : Prop :=
  ∀ c, i.cell? = some c → w.store.alive c

/-- The answers in a world. -/
def Host.view (host : Host) (w : World) : View
  | .call v m => (host.callMethod v m.name w).map Prod.fst
  | .derives v base => .ok (host.derivesFrom w v base)
  | .named name => .ok (host.class? w name)
  | .generation c => .ok (host.generation w c)
  | .callable v => .ok ((w.store.code? v).map w.cache.classifier)
  | .text v => .ok (w.store.valueText v)

/-- The replies of living metaobjects contain no weak references. -/
def Host.Strong (host : Host) (w : World) : Prop :=
  ∀ v m vs, (Inquiry.call v m).Live w → host.view w (.call v m) = .ok (.ok vs) →
    ∀ x ∈ vs, x.isWeak = false

/-- A world and a later one, with the same cells but for those that are gone, and with the same
answers. -/
structure Host.Unmoved (host : Host) (w w' : World) : Prop extends host.Still w w' where
  cells_next_eq : w'.store.cells.next = w.store.cells.next
  settings : w'.cache.settings = w.cache.settings
  view : ∀ {i : Inquiry}, i.Live w' → host.view w' i = host.view w i

/-- The answers of the host depend on nothing that the cache does. -/
structure Host.Indifferent (host : Host) : Prop where
  callMethod : ∀ {w w' : World} {f : Holding} {v : Value} {m : Introspection}, w.Upkeep w' →
    w'.Covers f → (Inquiry.call v m).Live w' →
    (host.callMethod v m.name w').map Prod.fst = (host.callMethod v m.name w).map Prod.fst
  derivesFrom : ∀ {w w' : World} {f : Holding} {v : Value} {base : String}, w.Upkeep w' →
    w'.Covers f → (Inquiry.derives v base).Live w' →
    host.derivesFrom w' v base = host.derivesFrom w v base
  class? : ∀ {w w' : World} {f : Holding}, w.Upkeep w' → w'.Covers f →
    host.class? w' = host.class? w

/-- A host without side effects whose answers depend on nothing that the cache does, nor on what was
asked before. -/
structure Host.Consistent (host : Host) : Prop extends host.SideEffectFree, host.Indifferent where
  unmoved : ∀ {q : Query} {f : Holding}, host.Answers q → q.before.Covers f →
    host.Unmoved q.before q.after

variable {host : Host} {w w' w'' : World} {f : Holding}

namespace Host.Unmoved

theorem refl (w : World) : host.Unmoved w w := ⟨.refl w, rfl, rfl, fun _ => rfl⟩

/-- What is there in the later world was there in the earlier one. -/
theorem alive_of_alive (h : host.Unmoved w w') {c : CellId} (hc : w'.store.alive c) :
    w.store.alive c :=
  h.alive (h.cells_next_eq ▸ Store.lt_next_of_alive hc) hc

theorem live_of_live (h : host.Unmoved w w') {i : Inquiry} (hi : i.Live w') : i.Live w :=
  fun c hc => h.alive_of_alive (hi c hc)

theorem trans (h : host.Unmoved w w') (h' : host.Unmoved w' w'') : host.Unmoved w w'' where
  toStill := h.toStill.trans h'.toStill
  cells_next_eq := h'.cells_next_eq.trans h.cells_next_eq
  settings := h'.settings.trans h.settings
  view hi := (h'.view hi).trans (h.view (h'.live_of_live hi))

theorem strong (h : host.Unmoved w w') (hs : host.Strong w) : host.Strong w' := by
  intro v m vs hv hvs
  rw [h.view hv] at hvs
  exact hs v m vs (h.live_of_live hv) hvs

end Host.Unmoved

theorem Store.Keeps.code?_eq {s s' : Store} (h : s.Keeps s') {v : Value}
    (hv : ∀ c, v.cell? = some c → s'.alive c) : s'.code? v = s.code? v := by
  cases v with
  | ref c =>
    simp only [Store.code?, Value.strong?, Option.bind_eq_bind, Option.bind_some]
    rw [h.referent?_eq (hv c rfl)]
  | _ => rfl

theorem Store.Keeps.valueText_eq {s s' : Store} (h : s.Keeps s') {v : Value}
    (hv : ∀ c, v.cell? = some c → s'.alive c) : s'.valueText v = s.valueText v := by
  cases v with
  | ref c | weak c =>
    simp only [Store.valueText, Store.weakText, Store.cellText]
    rw [h.referent?_eq (hv c rfl)]
  | _ => rfl

/-- What the cache does on its own leaves the view as it is. -/
theorem Host.Indifferent.unmoved_of_upkeep (hc : host.Indifferent) (ho : host.Orderly)
    (h : w.Upkeep w') (hcov : w'.Covers f) : host.Unmoved w w' where
  toStill := .of_upkeep ho h
  cells_next_eq := h.keeps.cells_next
  settings := h.settings
  view {i} hi := by
    cases i with
    | call v m => exact hc.callMethod h hcov hi
    | derives v base => exact congrArg Except.ok (hc.derivesFrom h hcov hi)
    | named name => exact congrArg Except.ok (congrFun (hc.class? h hcov) name)
    | generation c =>
      exact congrArg Except.ok (ho.generation (h.keeps.referent?_eq (hi c rfl)))
    | callable v =>
      have hcl : w'.cache.classifier = w.cache.classifier := congrArg (·.2.1) h.settings
      show Except.ok _ = Except.ok _
      rw [h.keeps.code?_eq hi, hcl]
    | text v => exact congrArg Except.ok (h.keeps.valueText_eq hi)

end MetaCache
