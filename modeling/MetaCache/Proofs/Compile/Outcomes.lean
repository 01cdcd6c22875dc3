import MetaCache.Proofs.Compile.Ledger
import MetaCache.Shadow.Compile
/-!
# What a compilation that has ended tells

A value that was asked for is one that was replied, made strong; the parts of a descriptor were read
one after another; the class of a shadow was found by the name that the instance metaobject
answered; filling a shadow adds descriptors and nothing else.

* `Shadow.ofClassName_apply`: resolving a class, by whether there is one of that name.
* `Host.askOne_eq_ok`, `Descriptor.readDefault_eq_ok`, `Descriptor.compile_eq_ok`,
  `Shadow.exists_of_resolve`, `Shadow.fill_eq`: what an outcome tells.
-/

namespace MetaCache

theorem Value.owned_of_text? {v : Value} {t : String} (h : v.text? = some t) : v.owned = [] := by
  cases v with
  | ref _ | weak _ => cases h
  | _ => rfl

theorem Shadow.ofClassName_apply (host : Host) (className : String) (w : World) :
    Shadow.ofClassName host className w = match host.class? w className with
      | none => .ok (.error (.mismatch (.unknownClass className)), w)
      | some cls => .ok (.ok {
          cls, className, layout := w.cache.config.layout,
          generation := host.generation (w.onStore (·.retain [.cell cls])) cls },
          w.onStore (·.retain [.cell cls])) := by
  show (match host.class? w className with
    | none => throw (.mismatch (.unknownClass className))
    | some cls => do
      Action.retain [.cell cls]
      let w ← get
      return {
        cls, className, layout := w.cache.config.layout, generation := host.generation w cls }
    : Build Shadow) w = _
  cases host.class? w className <;> rfl

theorem Shadow.ofClassName_eq_error {host : Host} {className : String} {w : World}
    (h : host.class? w className = none) : Shadow.ofClassName host className w =
      .ok (.error (.mismatch (.unknownClass className)), w) := by
  rw [Shadow.ofClassName_apply, h]

theorem Shadow.ofClassName_eq_ok {host : Host} {className : String} {w : World} {cls : CellId}
    (h : host.class? w className = some cls) : Shadow.ofClassName host className w =
      .ok (.ok {
        cls, className, layout := w.cache.config.layout,
        generation := host.generation (w.onStore (·.retain [.cell cls])) cls },
        w.onStore (·.retain [.cell cls])) := by
  rw [Shadow.ofClassName_apply, h]

theorem holding_empty_shadow {s : Shadow} (h : s.descriptors = []) :
    holding [.held (.shadow s)] = holding [.cell s.cls] := by
  rw [holding_held, Payload.owned, h, List.map_nil]

/-- The generation is that of the class in the world in which compiling goes on. -/
theorem Shadow.ofClassName_spec {host : Host} {className : String} {w w' : World} {s : Shadow}
    (h : Shadow.ofClassName host className w = .ok (.ok s, w')) :
    s.generation = host.generation w' s.cls ∧ s.descriptors = [] := by
  cases hc : host.class? w className with
  | none => cases (Shadow.ofClassName_eq_error hc).symm.trans h
  | some cls =>
    cases (Shadow.ofClassName_eq_ok hc).symm.trans h
    exact ⟨rfl, rfl⟩

/-! ## What succeeds -/

theorem Build.failReleasing_ne_ok {α : Type} (os : List Owned) (e : Error) {w w' : World} {a : α} :
    Build.failReleasing os e w ≠ .ok (.ok a, w') := by
  intro h
  obtain ⟨_, _, -, h⟩ := Build.bind_eq_ok h
  cases h

theorem Build.failMismatch_ne_ok {α : Type} {v : Value} {m : String → Mismatch} {w w' : World}
    {a : α} : Build.failMismatch v m w ≠ .ok (.ok a, w') := by
  intro h
  obtain ⟨_, _, -, h⟩ := Build.bind_eq_ok h
  exact Build.failReleasing_ne_ok _ _ h

theorem Build.guarding_eq_ok {α : Type} {os : List Owned} {x : Build α} {w w' : World} {a : α}
    (h : Build.guarding os x w = .ok (.ok a, w')) : x w = .ok (.ok a, w') := by
  rw [Build.guarding_apply] at h
  split at h
  · cases h
  · cases h
    assumption
  · cases h

/-- One value that was asked for is the one that was replied, made strong. -/
theorem Host.askOne_eq_ok {host : Host} {v x : Value} {m : String} {w w' : World}
    (h : host.askOne v m w = .ok (.ok x, w')) : ∃ y w₁,
      host.callMethod v m w = .ok (.ok [y], w₁) ∧ x = (w₁.store.upgrade y).1 := by
  obtain ⟨vs, w₁, hvs, h⟩ := Build.bind_eq_ok h
  have hcall : host.callMethod v m w = .ok (.ok vs, w₁) := by
    rw [Host.askList_apply] at hvs
    cases hc : host.callMethod v m w with
    | error _ => rw [hc] at hvs; cases hvs
    | ok p =>
      obtain ⟨reply, w₂⟩ := p
      rw [hc] at hvs
      cases reply <;> cases hvs
      rfl
  match vs, h with
  | [y], h =>
    cases h
    exact ⟨y, w₁, hcall, rfl⟩
  | [], h => exact absurd h (Build.failReleasing_ne_ok _ _)
  | _ :: _ :: _, h => exact absurd h (Build.failReleasing_ne_ok _ _)

theorem Store.text?_upgrade {s : Store} {v : Value} {t : String}
    (h : (s.upgrade v).1.text? = some t) : v.text? = some t := by
  cases v with
  | weak c =>
    simp only [Store.upgrade] at h
    split at h <;> cases h
  | _ => exact h

/-! ## Descriptors -/

/-- What is captured of code, by what the classifier makes of it. -/
def Descriptor.captureCode (v : Value) : Option ContainerKind → Build DefaultStrategy
  | some kind => do
    Action.release v.owned
    return .container kind
  | none => return .value v

theorem Descriptor.captureDefault_ref_apply (c : CellId) (w : World) :
    Descriptor.captureDefault (.ref c) w = match w.store.code? (.ref c) with
      | none => Build.failMismatch (.ref c) .defaultNotCallable w
      | some code => Descriptor.captureCode (.ref c) (w.cache.classifier code) w := by
  have hread : (Action.readStore (·.code? (.ref c)) : Build (Option Code)) w =
      .ok (.ok (w.store.code? (.ref c)), w) := rfl
  rw [Descriptor.captureDefault, Build.bind_apply, hread]
  cases w.store.code? (.ref c) with
  | none => rfl
  | some code =>
    show _ = Descriptor.captureCode (.ref c) (w.cache.classifier code) w
    dsimp only
    rw [Build.bind_apply]
    have hget : (get : Build World) w = .ok (.ok w, w) := rfl
    rw [hget]
    dsimp only
    cases w.cache.classifier code <;> rfl

section

variable {host : Host} {attr : Value} {w w' : World}

/-- A value that is captured as it is is the value at hand, and code if it is a reference. -/
theorem Descriptor.captureDefault_eq_ok {v u : Value}
    (h : captureDefault v w = .ok (.ok (.value u), w')) :
    u = v ∧ (v.strong?.isSome → (w'.store.code? v).isSome) := by
  cases v with
  | ref c =>
    rw [captureDefault_ref_apply] at h
    cases hcode : w.store.code? (.ref c) with
    | none =>
      rw [hcode] at h
      exact absurd h Build.failMismatch_ne_ok
    | some code =>
      rw [hcode] at h
      dsimp only at h
      cases hkind : w.cache.classifier code with
      | some kind =>
        rw [hkind] at h
        obtain ⟨_, _, -, h⟩ := Build.bind_eq_ok h
        cases h
      | none =>
        rw [hkind] at h
        cases h
        exact ⟨rfl, fun _ => by rw [hcode]; rfl⟩
  | _ =>
    cases h
    exact ⟨rfl, fun hs => by cases hs⟩

/-- A default that was read is what was captured of a reply, the name of a builder, or none. -/
theorem Descriptor.readDefault_eq_ok {d : DefaultStrategy}
    (h : readDefault host attr w = .ok (.ok d, w')) :
    (∃ v w₁ w₂, host.askOne attr AttributeQuery.default.method w₁ = .ok (.ok v, w₂) ∧
      captureDefault v w₂ = .ok (.ok d, w')) ∨ (∃ name, d = .builder name) ∨ d = .none := by
  obtain ⟨hasDefault, w₁, -, h⟩ := Build.bind_eq_ok h
  cases hasDefault with
  | true =>
    obtain ⟨v, w₂, hv, h⟩ := Build.bind_eq_ok h
    exact .inl ⟨v, w₁, w₂, hv, h⟩
  | false =>
    obtain ⟨hasBuilder, w₂, -, h⟩ := Build.bind_eq_ok h
    cases hasBuilder with
    | true =>
      obtain ⟨v, w₃, -, h⟩ := Build.bind_eq_ok h
      cases ht : v.text? with
      | some name =>
        rw [ht] at h
        cases h
        exact .inr (.inl ⟨name, rfl⟩)
      | none =>
        rw [ht] at h
        exact absurd h Build.failMismatch_ne_ok
    | false =>
      cases h
      exact .inr (.inr rfl)

/-- An attribute that was compiled is a reference. The initializer was asked for once the default
had been read, and after that nothing else was. -/
theorem Descriptor.compile_eq_ok {d : Descriptor} (h : compile host attr w = .ok (.ok d, w')) :
    attr = .ref d.origin ∧ ∃ w₁ w₂ w₃, readDefault host attr w₁ = .ok (.ok d.default, w₂) ∧
      readInitializer host attr w₂ = .ok (.ok d.initializer, w₃) ∧
      w' = w₃.onStore fun s => (s.retain [.weakCell d.origin]).note
        (.compiledDescriptor d.slot d.default.kind d.flags) := by
  cases attr with
  | ref origin =>
    obtain ⟨slot, _, -, h⟩ := Build.bind_eq_ok h
    obtain ⟨initArg, w₁, -, h⟩ := Build.bind_eq_ok h
    obtain ⟨default, w₂, hdefault, h⟩ := Build.bind_eq_ok h
    obtain ⟨initializer, w₃, hinit, h⟩ := Build.bind_eq_ok h
    obtain ⟨_, _, hretain, h⟩ := Build.bind_eq_ok h
    obtain ⟨_, _, hnote, h⟩ := Build.bind_eq_ok h
    cases hretain
    cases hnote
    cases h
    exact ⟨rfl, w₁, w₂, w₃, Build.guarding_eq_ok hdefault, Build.guarding_eq_ok hinit, rfl⟩
  | _ =>
    obtain ⟨_, _, -, h⟩ := Build.bind_eq_ok h
    cases h

end

/-! ## Shadows -/

/-- A class that was resolved was found by the name that the instance metaobject answered. -/
theorem Shadow.exists_of_resolve {host : Host} {inst : Value} {w w' : World} {s : Shadow}
    (h : Shadow.resolve host inst w = .ok (.ok s, w')) :
    ∃ className v w₁, host.askOne inst InstanceQuery.className.method w = .ok (.ok v, w₁) ∧
      v.text? = some className ∧ Shadow.ofClassName host className w₁ = .ok (.ok s, w') := by
  obtain ⟨w₁, w₂, hget, h⟩ := Build.bind_eq_ok h
  cases hget
  dsimp only at h
  split at h
  · obtain ⟨v, w₃, hv, h⟩ := Build.bind_eq_ok h
    cases ht : v.text? with
    | some className =>
      rw [ht] at h
      exact ⟨className, v, w₃, hv, ht, h⟩
    | none =>
      rw [ht] at h
      exact absurd h Build.failMismatch_ne_ok
  · obtain ⟨got, w₃, -, h⟩ := Build.bind_eq_ok h
    cases h

theorem Shadow.compileAttributes_eq {host : Host} {s s' : Shadow} {attrs : List Value}
    {w w' : World} (h : Shadow.compileAttributes host s attrs w = .ok (.ok s', w')) :
    s' = { s with descriptors := s'.descriptors } := by
  induction attrs generalizing s w with
  | nil =>
    cases h
    rfl
  | cons attr rest ih =>
    obtain ⟨d, w₁, -, h⟩ := Build.bind_eq_ok h
    obtain ⟨_, w₂, -, h⟩ := Build.bind_eq_ok h
    exact (ih h).trans rfl

/-- Filling a shadow adds descriptors and nothing else. -/
theorem Shadow.fill_eq {host : Host} {inst : Value} {s s' : Shadow} {w w' : World}
    (h : Shadow.fill host inst s w = .ok (.ok s', w')) :
    s' = { s with descriptors := s'.descriptors } := by
  obtain ⟨attrs, w₁, -, h⟩ := Build.bind_eq_ok h
  obtain ⟨s₁, w₂, hs, h⟩ := Build.bind_eq_ok h
  obtain ⟨_, w₃, -, h⟩ := Build.bind_eq_ok h
  cases h
  exact Shadow.compileAttributes_eq hs

end MetaCache
