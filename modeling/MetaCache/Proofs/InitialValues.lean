import MetaCache.Proofs.Compile.Captures
import MetaCache.Proofs.History.Answers
/-!
# Weak references among initial values

What a default or a builder replied is made strong when it was asked for, and so is what is captured
of it; a container is fresh. What the captured code of a default answers is handed out as it is, and
this is the one way in which an initial value comes to be a weak reference.

* `Descriptor.InitialValue`: where an initial value comes from.
* `initialValue_weak_iff`: which initial values are weak references.
* `initialValue_weak_weakenedWorld`: there are such values.
-/

namespace MetaCache

variable {host : Host} {w w' : World}

theorem Build.ofHost_eq_ok {α : Type} {x : ExceptT HostError Action α} {a : α} :
    Build.ofHost x w = .ok (.ok a, w') ↔ x w = .ok (.ok a, w') := by
  have happly : Build.ofHost x w = (x w).map fun p => (p.1.mapError Error.host, p.2) := by
    show Except.bind (x w) _ = _
    cases x w <;> rfl
  rw [happly]
  match x w with
  | .error e => exact ⟨fun h => (nomatch h), fun h => (nomatch h)⟩
  | .ok (.error e, w₁) => exact ⟨fun h => (nomatch h), fun h => (nomatch h)⟩
  | .ok (.ok b, w₁) =>
    constructor <;>
    · intro h
      cases h
      rfl

namespace Descriptor

/-- The ways in which `inst` gets the value `v` in `w`. -/
inductive InitialValue (host : Host) (d : Descriptor) (inst : Value) (w w' : World) : Value → Prop
  | generated {c : CellId} {v : Value} (hd : d.default = .value (.ref c))
    (hc : (w.store.code? (.ref c)).isSome) (hv : host.callCode c [inst] w = .ok (.ok v, w')) :
    InitialValue host d inst w w' v
  | captured {v : Value} (hd : d.default = .value v) (hc : w.store.code? v = none) :
    InitialValue host d inst w w' v
  | built {method : String} {y : Value} {w₁ : World} (hd : d.default = .builder method)
    (hv : host.callMethod inst method w = .ok (.ok [y], w₁)) :
    InitialValue host d inst w w' (w₁.store.upgrade y).1
  | container {kind : ContainerKind} (hd : d.default = .container kind) :
    InitialValue host d inst w w' (kind.produce w.store).1

/-- What captured code answers is handed out as it is. -/
theorem initialValue_of_callCode {d : Descriptor} {inst v : Value} {c : CellId}
    (hd : d.default = .value (.ref c)) (hc : (w.store.code? (.ref c)).isSome)
    (hv : host.callCode c [inst] w = .ok (.ok v, w')) :
    d.initialValue host inst w = .ok (.ok (some v), w') := by
  obtain ⟨code, hcode⟩ := Option.isSome_iff_exists.1 hc
  have hread : (Action.readStore (·.code? (.ref c)) : Build (Option Code)) w =
      .ok (.ok (some code), w) := by
    rw [← hcode]
    rfl
  unfold initialValue
  simp only [hd]
  rw [Build.bind_apply, hread]
  show (Build.ofHost (host.callCode c [inst]) >>= fun u => Pure.pure (some u) : Build _) w = _
  rw [Build.bind_apply, Build.ofHost_eq_ok.2 hv]
  rfl

theorem initialValue_cases {d : Descriptor} {inst v : Value}
    (h : d.initialValue host inst w = .ok (.ok (some v), w')) :
    d.InitialValue host inst w w' v := by
  unfold initialValue at h
  cases hd : d.default with
  | none =>
    rw [hd] at h
    cases h
  | value u =>
    rw [hd] at h
    obtain ⟨code?, w₁, hread, h⟩ := Build.bind_eq_ok h
    cases hread
    cases u with
    | ref c =>
      dsimp only at h
      cases hcode : w.store.code? (.ref c) with
      | none =>
        rw [hcode] at h
        cases h
        exact .captured hd hcode
      | some code =>
        rw [hcode] at h
        obtain ⟨x, w₂, hx, h⟩ := Build.bind_eq_ok h
        cases h
        exact .generated hd (by rw [hcode]; rfl) (Build.ofHost_eq_ok.1 hx)
    | _ =>
      cases h
      exact .captured hd rfl
  | builder method =>
    rw [hd] at h
    obtain ⟨x, w₁, hx, h⟩ := Build.bind_eq_ok h
    obtain ⟨y, w₂, hy, rfl⟩ := Host.askOne_eq_ok hx
    cases h
    exact .built hd hy
  | container kind =>
    rw [hd] at h
    cases h
    exact .container hd

end Descriptor

/-- The initial value of an attribute that was compiled is a weak reference exactly if the attribute
has captured code as its default, and that code has answered it. -/
theorem initialValue_weak_iff {host' : Host} {attr inst v : Value} {d : Descriptor}
    {w₀ w₁ : World} (hd : Descriptor.compile host attr w₀ = .ok (.ok d, w₁))
    (hv : d.initialValue host' inst w = .ok (.ok (some v), w')) :
    (∃ e, v = .weak e) ↔ ∃ c e, d.default = .value (.ref c) ∧
      (w.store.code? (.ref c)).isSome ∧ host'.callCode c [inst] w = .ok (.ok (.weak e), w') := by
  have hstrong := (Descriptor.spec_of_compile hd).2
  constructor
  · rintro ⟨e, he⟩
    cases Descriptor.initialValue_cases hv with
    | generated hdef hc hcall => exact ⟨_, e, hdef, hc, he ▸ hcall⟩
    | captured hdef _ => exact absurd (he ▸ hdef) (hstrong e)
    | built _ _ => exact absurd he (Store.upgrade_ne_weak _ _ e)
    | container _ => cases he
  · rintro ⟨c, e, hdef, hc, hcall⟩
    cases hv.symm.trans (Descriptor.initialValue_of_callCode hdef hc hcall)
    exact ⟨e, rfl⟩

/-! ## A generator that answers a weak reference -/

open Script

/-- A host whose code calls no further code. -/
def shallowHost : Host := scriptedHost (interpret 1)

/-- A world with an array in its first cell and an attribute metaobject in its last one. The default
of the attribute is code that answers a weak reference to the instance that it is called with. -/
def weakeningWorld : World :=
  (Expr.evalAll [] [.array [], .attributeMeta "x" none none
    (some (.code (.mk none [] none none none [.weak (.arg 0)]))) none none []] {}).toOption.elim {}
      Prod.snd

/-- The descriptor of that attribute. -/
def weakeningDescriptor : Descriptor where
  slot := ⟨⟨0, "x"⟩, Text.nameHash "x"⟩
  initArg := none
  default := .value (.ref 1)
  initializer := none
  origin := 2

/-- The world that compiling it leaves. -/
def weakenedWorld : World := (Descriptor.compile shallowHost (.ref 2)).leaves weakeningWorld

/-- A weak reference to the instance is handed out as its initial value. -/
theorem initialValue_weak_weakenedWorld :
    (Descriptor.compile shallowHost (.ref 2)).answer? weakeningWorld = some weakeningDescriptor ∧
      (weakeningDescriptor.initialValue shallowHost (.ref 0)).answer? weakenedWorld =
        some (some (.weak 0)) := by
  decide +kernel

/-- What the theorem says of this value. -/
theorem initialValue_weak_iff_weakenedWorld :
    Descriptor.compile shallowHost (.ref 2) weakeningWorld =
        .ok (.ok weakeningDescriptor, weakenedWorld) ∧
      weakeningDescriptor.initialValue shallowHost (.ref 0) weakenedWorld =
        .ok (.ok (some (.weak 0)),
          (weakeningDescriptor.initialValue shallowHost (.ref 0)).leaves weakenedWorld) ∧
      ((∃ e, Value.weak 0 = .weak e) ↔ ∃ c e, weakeningDescriptor.default = .value (.ref c) ∧
        (weakenedWorld.store.code? (.ref c)).isSome ∧
        shallowHost.callCode c [.ref 0] weakenedWorld = .ok (.ok (.weak e),
          (weakeningDescriptor.initialValue shallowHost (.ref 0)).leaves weakenedWorld)) := by
  have hd : Descriptor.compile shallowHost (.ref 2) weakeningWorld =
      .ok (.ok weakeningDescriptor, weakenedWorld) := Build.eq_of_answer? (by decide +kernel)
  have hv : weakeningDescriptor.initialValue shallowHost (.ref 0) weakenedWorld =
      .ok (.ok (some (.weak 0)),
        (weakeningDescriptor.initialValue shallowHost (.ref 0)).leaves weakenedWorld) :=
    Build.eq_of_answer? (by decide +kernel)
  exact ⟨hd, hv, initialValue_weak_iff hd hv⟩

end MetaCache
