import MetaCache.Proofs.Balance
import MetaCache.Proofs.Compile.Code
import MetaCache.Proofs.InitialValues
/-!
# Defaults that all instances may share

A default that is captured is handed to every instance that needs it. So it must not be something
that one instance could change under the hands of another: it is a plain value, or code that makes a
value for each instance. A container that is an attribute's default is made anew each time.

* `Descriptor.GivesAlone`: an initial value that comes without host code.
* `Descriptor.SafeToShare`: what is captured, and what instances get of it.
* `safeToShare_of_compile`: descriptors that were compiled are safe to share.
-/

namespace MetaCache

variable {host : Host} {w w' : World}

/-- A host that never answers. -/
def Host.mute : Host where
  callMethod _ _ _ := .error .exhausted
  callCode _ _ _ := .error .exhausted
  derivesFrom _ _ _ := false
  class? _ _ := none
  generation _ _ := 0

namespace Descriptor

variable {d : Descriptor} {inst v : Value}

/-- The instance gets the value, whatever the host does when it is called. -/
def GivesAlone (d : Descriptor) (inst : Value) (w : World) (v : Value) (w' : World) : Prop :=
  ∀ host : Host, d.initialValue host inst w = .ok (.ok (some v), w')

/-- Without host code there are captured values that are no code, and containers. -/
theorem GivesAlone.captured_or_container (h : d.GivesAlone inst w v w') :
    d.default = .value v ∧ w.store.code? v = none ∨
      ∃ kind, d.default = .container kind ∧ v = .ref w.store.cells.next := by
  cases initialValue_cases (h .mute) with
  | generated _ _ hv => cases hv
  | captured hd hc => exact .inl ⟨hd, hc⟩
  | built _ hv => cases hv
  | container hd => exact .inr ⟨_, hd, rfl⟩

/-- A container is made for the instance, and nobody else is asked. -/
theorem givesAlone_of_container {kind : ContainerKind} (hd : d.default = .container kind)
    (inst : Value) (w : World) : d.GivesAlone inst w (.ref w.store.cells.next)
      { w with store := (w.store.newCell kind.empty).2 } := by
  intro host
  unfold initialValue
  simp only [hd]
  rfl

/-- A later world in which what the descriptor has captured is still there, as it is as long as
there is the descriptor. -/
structure KeptIn (d : Descriptor) (w₁ w : World) : Prop where
  later : w₁.store.CodeStays w.store
  alive : ∀ c, d.default = .value (.ref c) → w.store.alive c

/-- What a descriptor that was complete in `w₁` has captured, and what instances get of it later. -/
structure SafeToShare (d : Descriptor) (w₁ : World) : Prop where
  /-- A captured value is a plain one, or a strong reference to code. -/
  captured : ∀ v, d.default = .value v →
    v.isReference = false ∨ ∃ c, v = .ref c ∧ (w₁.store.code? v).isSome
  /-- Two values that came without host code, one after the other, have no cell in common. -/
  apart : ∀ {w₂ w₂' w₃ w₃' : World} {inst inst' v v' : Value}, d.KeptIn w₁ w₂ →
    d.GivesAlone inst w₂ v w₂' → d.KeptIn w₁ w₃ → w₂'.store.cells.next ≤ w₃.store.cells.next →
    d.GivesAlone inst' w₃ v' w₃' → ∀ c, v.cell? = some c → v'.cell? ≠ some c
  /-- A container is a cell that there has not been before. It is empty, and of the kind that the
  descriptor tells. -/
  fresh : ∀ kind, d.default = .container kind → ∀ (inst : Value) (w₂ : World), ∃ c w₂',
    d.GivesAlone inst w₂ (.ref c) w₂' ∧ w₂.store.cells.next ≤ c ∧
      w₂'.store.referent? c = some kind.empty ∧ w₂'.store.extension? c = none

/-- What was captured as a reference is still code, so that an instance gets no captured value but a
plain one without host code. -/
theorem GivesAlone.cell_eq {w₁ : World} {c : CellId} (h : d.GivesAlone inst w v w')
    (hcaptured : ∀ c, d.default = .value (.ref c) → (w₁.store.code? (.ref c)).isSome)
    (hstrong : ∀ c, d.default ≠ .value (.weak c)) (hkept : d.KeptIn w₁ w) (hc : v.cell? = some c) :
    c = w.store.cells.next ∧ w'.store.cells.next = w.store.cells.next + 1 := by
  rcases h.captured_or_container with ⟨hd, hcode⟩ | ⟨kind, hd, rfl⟩
  · cases v with
    | ref e =>
      have := hkept.later.code? e (hcaptured e hd) (hkept.alive e hd)
      rw [hcode] at this
      cases this
    | weak e => exact absurd hd (hstrong e)
    | _ => cases hc
  · cases hc
    cases (h .mute).symm.trans (givesAlone_of_container hd inst w .mute)
    exact ⟨rfl, rfl⟩

end Descriptor

/-- Whatever a host answers when it is asked for a default, be it a weak reference, what is captured
of the answer is safe to share. -/
theorem safeToShare_of_compile (ho : host.Orderly) (hp : host.PreservesCode) {attr : Value}
    {d : Descriptor} {k : Holding} (hw : w.Covers k)
    (h : Descriptor.compile host attr w = .ok (.ok d, w')) : d.SafeToShare w' := by
  obtain ⟨-, hcode⟩ := Descriptor.code_of_compile ho hp hw h
  have hstrong := (Descriptor.spec_of_compile h).2
  constructor
  case captured =>
    intro v hd
    cases v with
    | ref c => exact .inr ⟨c, rfl, hcode c hd⟩
    | weak c => exact absurd hd (hstrong c)
    | _ => exact .inl rfl
  case apart =>
    intro w₂ w₂' w₃ w₃' inst inst' v v' hkept hgives hkept' hnext hgives' c hc hc'
    obtain ⟨hfirst, hnext₂⟩ := hgives.cell_eq hcode hstrong hkept hc
    obtain ⟨hsecond, -⟩ := hgives'.cell_eq hcode hstrong hkept' hc'
    rw [hnext₂, ← hfirst, hsecond] at hnext
    exact Nat.not_succ_le_self _ hnext
  case fresh =>
    intro kind hd inst w₂
    refine ⟨_, _, Descriptor.givesAlone_of_container hd inst w₂, Nat.le_refl _, ?_, ?_⟩
    · exact congrArg (Option.map Cell.referent) (Store.cell?_newCell_self w₂.store kind.empty)
    · exact congrArg (Option.bind · Cell.extension) (Store.cell?_newCell_self w₂.store kind.empty)

/-! ## A default that is replied weakly -/

theorem preservesCode_plainHost : plainHost.PreservesCode where
  answers hq := ⟨.of_keeps (answers_upkeep hq).keeps,
    (answers_quiet (registered_scriptedHost _ : plainHost.Registered) hq).covers⟩

/-- A world with code in its last cell. The attribute metaobject in its first one answers a weak
reference to the code when it is asked for its default. -/
def lentCodeWorld (classifier : Classifier) : World :=
  let w := pointWorld.onStore fun s =>
    (s.newCell (.code { name := some "list", routine := .mk none [] none none none [] })).2.retain
      [.weakCell 3]
  let w := w.setBehavior 0 AttributeQuery.hasDefault.method (.reply [.int 1])
  let w := w.setBehavior 0 AttributeQuery.default.method (.reply [.weak 3])
  { w with cache := { w.cache with classifier } }

theorem covers_lentCodeWorld (classifier : Classifier) :
    (lentCodeWorld classifier).Covers (holding [.cell 1, .cell 2, .cell 3]) :=
  (World.wellCounted_of_entries (w := lentCodeWorld .never) (by decide +kernel) (by decide +kernel)
    (by decide +kernel) (by decide +kernel) (by decide +kernel)).covers

/-- The code is captured strongly. A classifier that knows it puts an array in its place. -/
theorem safeToShare_of_compile_lentCodeWorld :
    (∃ d w', Descriptor.compile plainHost (.ref 0) (lentCodeWorld .never) = .ok (.ok d, w') ∧
      d.default = .value (.ref 3) ∧ d.SafeToShare w') ∧
    ∃ d w', Descriptor.compile plainHost (.ref 0) (lentCodeWorld (.byName [("list", .array)])) =
      .ok (.ok d, w') ∧ d.default = .container .array ∧ d.SafeToShare w' := by
  have ho : plainHost.Orderly := (registered_scriptedHost _ : plainHost.Registered).orderly
  have hrun (classifier : Classifier) (s : DefaultStrategy)
      (hs : ((Descriptor.compile plainHost (.ref 0)).answer? (lentCodeWorld classifier)).map
        Descriptor.default = some s) :
      ∃ d w', Descriptor.compile plainHost (.ref 0) (lentCodeWorld classifier) =
        .ok (.ok d, w') ∧ d.default = s ∧ d.SafeToShare w' := by
    obtain ⟨d, hd, rfl⟩ := Option.map_eq_some_iff.1 hs
    have h := Build.eq_of_answer? hd
    exact ⟨d, _, h, rfl,
      safeToShare_of_compile ho preservesCode_plainHost (covers_lentCodeWorld classifier) h⟩
  exact ⟨hrun .never _ (by decide +kernel), hrun _ _ (by decide +kernel)⟩

end MetaCache
