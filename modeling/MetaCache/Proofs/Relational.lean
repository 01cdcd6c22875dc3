import Mathlib.Order.Defs.PartialOrder
import MetaCache.World
/-!
# Two computations at a time

Two computations are run side by side, each in a world of its own. What relates the worlds may
depend on what has come about so far, such as the identities that were given out: this only grows.
Where results are held, it depends on the results as well. If both computations keep the relation,
so do those that are put together from them.

* `Concluded`: what becomes of both computations; `Settled`: what they come to, if they may fail.
* `Concluded.bind`, `Concluded.bindTrial`, `Concluded.catchTrial`: what becomes of two runs that go
  on.
* `Action.Relates`, `Trial.Relates`: computations on the world, and computations that may fail, that
  keep a relation between worlds; they fail with the same error.
* `Action.Relates.bind`, `Trial.Relates.bind`, `Trial.Relates.tryCatch`: computations in sequence.
* `Action.Relates.modifyGet`, `Action.Relates.change`: changes of the world.
* `Build.relates_guarding`: what is given back with a failure.
-/

namespace MetaCache

/-- A computation that may fail. -/
abbrev Trial (ε α : Type) := ExceptT ε Action α

variable {Γ α β γ δ ε ε' : Type} [Preorder Γ] {g : Γ}

/-- What becomes of two computations: both stop for the same reason, or both end with results of
which `R` holds, in worlds that `T` relates, given the results. -/
inductive Concluded (T : Γ → α → β → World → World → Prop) (g : Γ) (R : Γ → α → β → Prop) :
    Except Halt (α × World) → Except Halt (β × World) → Prop
  | done {g' : Γ} {x : α} {y : β} {w v : World} (hg : g ≤ g') (hxy : R g' x y)
    (hw : T g' x y w v) : Concluded T g R (.ok (x, w)) (.ok (y, v))
  | halt (h : Halt) : Concluded T g R (.error h) (.error h)

/-- The same result. -/
def Equal (_ : Γ) (x y : α) : Prop := x = y

/-- The same error, or results of which `R` holds. -/
inductive Settled (R : Γ → α → β → Prop) (g : Γ) : Except ε α → Except ε β → Prop
  | ok {x : α} {y : β} (h : R g x y) : Settled R g (.ok x) (.ok y)
  | error (e : ε) : Settled R g (.error e) (.error e)

omit [Preorder Γ] in
theorem settled_equal_iff {x y : Except ε α} : Settled Equal g x y ↔ x = y := by
  constructor
  · intro h
    cases h with
    | ok h => exact congrArg Except.ok h
    | error e => rfl
  · rintro rfl
    cases x with
    | ok a => exact .ok rfl
    | error e => exact .error e

/-! ## What becomes of two runs -/

namespace Concluded

variable {R : Γ → α → β → Prop}

section

variable {T : Γ → α → β → World → World → Prop} {x : Except Halt (α × World)}
  {y : Except Halt (β × World)}

theorem mono {g' : Γ} (h : Concluded T g' R x y) (hg : g ≤ g') : Concluded T g R x y := by
  cases h with
  | done hg' hxy hw => exact .done (le_trans hg hg') hxy hw
  | halt h => exact .halt h

theorem imp {S : Γ → α → β → Prop} (h : Concluded T g R x y)
    (hRS : ∀ g' a b, R g' a b → S g' a b) : Concluded T g S x y := by
  cases h with
  | done hg hxy hw => exact .done hg (hRS _ _ _ hxy) hw
  | halt h => exact .halt h

/-- What comes to the same is gone on from. -/
theorem bind {S : Γ → γ → δ → Prop} {U : Γ → γ → δ → World → World → Prop}
    {f : α × World → Except Halt (γ × World)} {f' : β × World → Except Halt (δ × World)}
    (h : Concluded T g R x y)
    (hf : ∀ g', g ≤ g' → ∀ a b, R g' a b → ∀ w v, T g' a b w v →
      Concluded U g' S (f (a, w)) (f' (b, v))) :
    Concluded U g S (x.bind f) (y.bind f') := by
  cases h with
  | done hg hxy hw => exact (hf _ hg _ _ hxy _ _ hw).mono hg
  | halt h => exact .halt h

end

variable {T : Γ → Except ε α → Except ε β → World → World → Prop} {w v : World} {x : Trial ε α}
  {y : Trial ε β}

/-- Computations that may fail are gone on from. A failure is handed on, in worlds as they are. -/
theorem bindTrial {S : Γ → γ → δ → Prop} {U : Γ → Except ε γ → Except ε δ → World → World → Prop}
    {f : α → Trial ε γ} {f' : β → Trial ε δ} (h : Concluded T g (Settled R) (x w) (y v))
    (hf : ∀ g', g ≤ g' → ∀ a b, R g' a b → ∀ w v, T g' (.ok a) (.ok b) w v →
      Concluded U g' (Settled S) (f a w) (f' b v))
    (herror : ∀ g' e w v, T g' (.error e) (.error e) w v → U g' (.error e) (.error e) w v) :
    Concluded U g (Settled S) ((x >>= f) w) ((y >>= f') v) := by
  refine Concluded.bind h fun g' hg _ _ hrq _ _ hw => ?_
  cases hrq with
  | ok hab => exact hf g' hg _ _ hab _ _ hw
  | error e => exact .done le_rfl (.error e) (herror g' e _ _ hw)

/-- A failure is caught. A result is handed on, in worlds as they are. -/
theorem catchTrial {U : Γ → Except ε α → Except ε β → World → World → Prop} {f : ε → Trial ε α}
    {f' : ε → Trial ε β} (h : Concluded T g (Settled R) (x w) (y v))
    (hf : ∀ g', g ≤ g' → ∀ e w v, T g' (.error e) (.error e) w v →
      Concluded U g' (Settled R) (f e w) (f' e v))
    (hok : ∀ g' a b w v, T g' (.ok a) (.ok b) w v → U g' (.ok a) (.ok b) w v) :
    Concluded U g (Settled R) ((tryCatch x f : Trial ε α) w) ((tryCatch y f' : Trial ε β) v) := by
  refine Concluded.bind h fun g' hg _ _ hrq _ _ hw => ?_
  cases hrq with
  | ok hab => exact .done le_rfl (.ok hab) (hok g' _ _ _ _ hw)
  | error e => exact hf g' hg e _ _ hw

end Concluded

section

variable {T : Γ → World → World → Prop} {R : Γ → α → β → Prop} {S : Γ → γ → δ → Prop}

/-- From related worlds the computations come to results of which `R` holds, and leave related
worlds. -/
def Action.Relates (T : Γ → World → World → Prop) (g : Γ) (R : Γ → α → β → Prop) (x : Action α)
    (y : Action β) : Prop :=
  ∀ ⦃w v⦄, T g w v → Concluded (fun g' _ _ => T g') g R (x w) (y v)

/-- From related worlds the computations fail with the same error, or come to results of which `R`
holds. -/
def Trial.Relates (T : Γ → World → World → Prop) (g : Γ) (R : Γ → α → β → Prop) (x : Trial ε α)
    (y : Trial ε β) : Prop :=
  Action.Relates T g (Settled R) x.run y.run

/-! ## Computations on the world -/

namespace Action.Relates

variable {x : Action α} {y : Action β}

theorem pure {a : α} {b : β} (h : R g a b) : Relates T g R (Pure.pure a) (Pure.pure b) :=
  fun _ _ hw => .done le_rfl h hw

theorem halt (h : Halt) : Relates T g R (Action.halt h) (Action.halt h) := fun _ _ _ => .halt h

theorem refuse (reason : String) :
    Relates T g R (Action.refuse reason) (Action.refuse reason) := halt _

theorem bind {f : α → Action γ} {f' : β → Action δ} (hx : Relates T g R x y)
    (hf : ∀ g', g ≤ g' → ∀ a b, R g' a b → Relates T g' S (f a) (f' b)) :
    Relates T g S (x >>= f) (y >>= f') :=
  fun _ _ hw => (hx hw).bind fun g' hg a b hab _ _ hw' => hf g' hg a b hab hw'

theorem imp {S : Γ → α → β → Prop} (h : Relates T g R x y)
    (hRS : ∀ g' a b, R g' a b → S g' a b) : Relates T g S x y :=
  fun _ _ hw => (h hw).imp hRS

/-- Computations with the same result, before others. -/
theorem andThen {y : Action α} {f : α → Action γ} {f' : α → Action δ}
    (hx : Relates T g Equal x y) (hf : ∀ g', g ≤ g' → ∀ a, Relates T g' S (f a) (f' a)) :
    Relates T g S (x >>= f) (y >>= f') :=
  hx.bind fun g' hg a _ hab => hab ▸ hf g' hg a

/-- A change of the world, with a result. -/
theorem modifyGet {f : World → α × World} {f' : World → β × World}
    (h : ∀ w v, T g w v → ∃ g', g ≤ g' ∧ R g' (f w).1 (f' v).1 ∧ T g' (f w).2 (f' v).2) :
    Relates T g R (MonadState.modifyGet f) (MonadState.modifyGet f') := by
  intro w v hw
  obtain ⟨g', hg, hxy, hw'⟩ := h w v hw
  exact .done hg hxy hw'

/-- A change of the world under which nothing comes about. -/
theorem change {f : World → α × World} {f' : World → β × World}
    (h : ∀ w v, T g w v → R g (f w).1 (f' v).1 ∧ T g (f w).2 (f' v).2) :
    Relates T g R (MonadState.modifyGet f) (MonadState.modifyGet f') :=
  modifyGet fun w v hw => ⟨g, le_rfl, h w v hw⟩

theorem modify {f f' : World → World} (h : ∀ w v, T g w v → T g (f w) (f' v)) :
    Relates T g Equal (modify f) (modify f') :=
  fun w v hw => .done le_rfl rfl (h w v hw)

/-- A computation that goes on from the world at hand. -/
theorem get_bind {f : World → Action γ} {f' : World → Action δ}
    (h : ∀ w v, T g w v → Relates T g S (f w) (f' v)) : Relates T g S (get >>= f) (get >>= f') :=
  fun w v hw => h w v hw hw

end Action.Relates

/-! ## Computations that may fail -/

namespace Trial.Relates

variable {x : Trial ε α} {y : Trial ε β}

theorem pure {a : α} {b : β} (h : R g a b) :
    Relates T g R (Pure.pure a : Trial ε α) (Pure.pure b) :=
  Action.Relates.pure (.ok h)

theorem throw (e : ε) :
    Relates T g R (MonadExcept.throw e : Trial ε α) (MonadExcept.throw e) :=
  Action.Relates.pure (.error e)

theorem lift {x : Action α} {y : Action β} (h : Action.Relates T g R x y) :
    Relates T g R (ExceptT.lift x : Trial ε α) (ExceptT.lift y) :=
  h.bind fun _ _ _ _ hxy => .pure (.ok hxy)

/-- The same outcome, whether that is a result or an error. -/
theorem equal_iff {y : Trial ε α} :
    Relates T g Equal x y ↔ Action.Relates T g Equal x.run y.run :=
  ⟨fun h => Action.Relates.imp h fun _ _ _ => settled_equal_iff.1,
    fun h => Action.Relates.imp h fun _ _ _ => settled_equal_iff.2⟩

theorem bind {f : α → Trial ε γ} {f' : β → Trial ε δ} (hx : Relates T g R x y)
    (hf : ∀ g', g ≤ g' → ∀ a b, R g' a b → Relates T g' S (f a) (f' b)) :
    Relates T g S (x >>= f) (y >>= f') :=
  fun _ _ hw => (hx hw).bindTrial (fun g' hg a b hab _ _ hw' => hf g' hg a b hab hw')
    fun _ _ _ _ hw' => hw'

/-- Computations with the same result, before others. -/
theorem andThen {y : Trial ε α} {f : α → Trial ε γ} {f' : α → Trial ε δ}
    (hx : Relates T g Equal x y) (hf : ∀ g', g ≤ g' → ∀ a, Relates T g' S (f a) (f' a)) :
    Relates T g S (x >>= f) (y >>= f') :=
  hx.bind fun g' hg a _ hab => hab ▸ hf g' hg a

theorem tryCatch {k : ε → Trial ε α} {k' : ε → Trial ε β} (hx : Relates T g R x y)
    (hk : ∀ g', g ≤ g' → ∀ e, Relates T g' R (k e) (k' e)) :
    Relates T g R (tryCatch x k) (tryCatch y k') :=
  fun _ _ hw => (hx hw).catchTrial (fun g' hg e _ _ hw' => hk g' hg e hw')
    fun _ _ _ _ _ hw' => hw'

theorem adapt (f : ε → ε') (hx : Relates T g R x y) :
    Relates T g R (ExceptT.adapt f x) (ExceptT.adapt f y) := by
  refine fun _ _ hw => Concluded.bind (hx hw) fun _ _ _ _ hrq _ _ hw' => ?_
  cases hrq with
  | ok hab => exact .done le_rfl (.ok hab) hw'
  | error e => exact .done le_rfl (.error (f e)) hw'

theorem get_bind {f : World → Trial ε γ} {f' : World → Trial ε δ}
    (h : ∀ w v, T g w v → Relates T g S (f w) (f' v)) : Relates T g S (get >>= f) (get >>= f') :=
  fun w v hw => h w v hw hw

theorem change {f : World → α × World} {f' : World → β × World}
    (h : ∀ w v, T g w v → R g (f w).1 (f' v).1 ∧ T g (f w).2 (f' v).2) :
    Relates T g R (MonadState.modifyGet f : Trial ε α) (MonadState.modifyGet f') :=
  lift (.change h)

end Trial.Relates

/-! ## Failures of the cache -/

variable {held held' : List Owned}

/-- Failures that give back what is held. -/
theorem Build.relates_failReleasing
    (h : Action.Relates T g Equal (Action.release held) (Action.release held')) (e : Error) :
    Trial.Relates T g R (failReleasing held e) (failReleasing held' e) :=
  (Trial.Relates.lift h).bind fun _ _ _ _ _ => .throw e

/-- Computations that give back what is held if they fail. -/
theorem Build.relates_guarding {x : Build α} {y : Build β} (hx : Trial.Relates T g R x y)
    (h : ∀ g', g ≤ g' →
      Action.Relates T g' Equal (Action.release held) (Action.release held')) :
    Trial.Relates T g R (guarding held x) (guarding held' y) :=
  hx.tryCatch fun g' hg e => relates_failReleasing (h g' hg) e

end

end MetaCache
