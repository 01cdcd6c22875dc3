import MetaCache.Proofs.Relational
import MetaCache.Proofs.Sharing.Stores
/-!
# Computations that agree

Two computations agree if in twin worlds both stop for the same reason, or both end, in worlds that
are twins again. The namings may have grown by then. A computation is blind if it agrees with
itself, with the same result: it does not see how names are shared.

* `Action.Agree`, `Action.Blind`: computations on the world.
* `Trial.Agree`, `Trial.Blind`: computations that may fail; they fail with the same error.
* `Action.Agree.onStore`, `Action.Agree.withStore`, `Action.Agree.release`: changes of the store.
* `Action.Agree.readStore_bind`, `Trial.Agree.readStore_bind`: what is read of the store.
* `Host.Blind`: a host that does not see how names are shared.
-/

namespace MetaCache

variable {α β γ δ ε ε' : Type} {g : Namings}

/-- In twin worlds the computations come to results of which `R` holds. -/
abbrev Action.Agree (g : Namings) (R : Namings → α → β → Prop) (x : Action α) (y : Action β) :
    Prop :=
  Action.Relates World.Twin g R x y

/-- The computation does not see how names are shared. -/
def Action.Blind (x : Action α) : Prop := ∀ g, Action.Agree g Equal x x

/-- In twin worlds the computations fail with the same error, or come to results of which `R`
holds. -/
abbrev Trial.Agree (g : Namings) (R : Namings → α → β → Prop) (x : Trial ε α) (y : Trial ε β) :
    Prop :=
  Trial.Relates World.Twin g R x y

/-- The computation does not see how names are shared. -/
def Trial.Blind (x : Trial ε α) : Prop := ∀ g, Trial.Agree g Equal x x

/-! ## Computations on the world -/

namespace Action

namespace Agree

variable {R : Namings → α → β → Prop} {S : Namings → γ → δ → Prop}

theorem onStore {f f' : Store → Store} (h : ∀ s t, s.Twin g t → (f s).Twin g (f' t)) :
    Agree g Equal (Action.onStore f) (Action.onStore f') :=
  Relates.modify fun _ _ hw => { hw with store := h _ _ hw.store }

theorem withStore {f : Store → α × Store} {f' : Store → β × Store}
    (h : ∀ s t, s.Twin g t → R g (f s).1 (f' t).1 ∧ (f s).2.Twin g (f' t).2) :
    Agree g R (Action.withStore f) (Action.withStore f') :=
  Relates.change fun _ _ hw =>
    have hs := h _ _ hw.store
    ⟨hs.1, { hw with store := hs.2 }⟩

theorem retain {os os' : List Owned} (h : Owned.Twins g os os') :
    Agree g Equal (Action.retain os) (Action.retain os') :=
  onStore fun _ _ hs => hs.retain h

theorem release {os os' : List Owned} (h : Owned.Twins g os os') :
    Agree g Equal (Action.release os) (Action.release os') :=
  onStore fun _ _ hs => hs.release h

theorem note (n m : Note) : Agree g Equal (Action.note n) (Action.note m) :=
  onStore fun _ _ hs => hs.note n m

/-- A computation that goes on from what is read of the store. -/
theorem readStore_bind {r : Store → α} {r' : Store → β} {f : α → Action γ} {f' : β → Action δ}
    (h : ∀ s t, s.Twin g t → Agree g S (f (r s)) (f' (r' t))) :
    Agree g S (Action.readStore r >>= f) (Action.readStore r' >>= f') :=
  fun _ _ hw => h _ _ hw.store hw

end Agree

namespace Blind

variable {x : Action α} {f : α → Action β}

theorem pure (a : α) : Blind (Pure.pure a) := fun _ => .pure rfl

theorem refuse (reason : String) : Blind (Action.refuse reason : Action α) :=
  fun _ => .refuse reason

theorem bind (hx : Blind x) (hf : ∀ a, Blind (f a)) : Blind (x >>= f) :=
  fun g => (hx g).andThen fun g' _ a => hf a g'

theorem change {f : World → α × World}
    (h : ∀ {g w v}, World.Twin g w v → (f w).1 = (f v).1 ∧ (f w).2.Twin g (f v).2) :
    Blind (MonadState.modifyGet f) :=
  fun _ => .change fun _ _ hw => h hw

theorem modify {f : World → World} (h : ∀ {g w v}, World.Twin g w v → (f w).Twin g (f v)) :
    Blind (modify f : Action Unit) :=
  fun _ => .modify fun _ _ hw => h hw

theorem withStore {f : Store → α × Store}
    (h : ∀ {g s t}, Store.Twin g s t → (f s).1 = (f t).1 ∧ (f s).2.Twin g (f t).2) :
    Blind (Action.withStore f) :=
  fun _ => Agree.withStore fun _ _ hs => h hs

theorem retain {os : List Owned} (h : ∀ g, Owned.Twins g os os) :
    Blind (Action.retain os : Action Unit) := fun g => Agree.retain (h g)

theorem release {os : List Owned} (h : ∀ g, Owned.Twins g os os) :
    Blind (Action.release os : Action Unit) := fun g => Agree.release (h g)

end Blind

end Action

/-! ## Computations that may fail -/

namespace Trial

namespace Agree

variable {S : Namings → γ → δ → Prop}

theorem readStore_bind {r : Store → α} {r' : Store → β} {f : α → Trial ε γ} {f' : β → Trial ε δ}
    (h : ∀ s t, s.Twin g t → Agree g S (f (r s)) (f' (r' t))) :
    Agree g S (Action.readStore r >>= f) (Action.readStore r' >>= f') :=
  fun _ _ hw => h _ _ hw.store hw

theorem note (n m : Note) : Agree g Equal (Action.note n : Trial ε Unit) (Action.note m) :=
  Relates.lift (Action.Agree.note n m)

theorem release {os os' : List Owned} (h : Owned.Twins g os os') :
    Agree g Equal (Action.release os : Trial ε Unit) (Action.release os') :=
  Relates.lift (Action.Agree.release h)

theorem retain {os os' : List Owned} (h : Owned.Twins g os os') :
    Agree g Equal (Action.retain os : Trial ε Unit) (Action.retain os') :=
  Relates.lift (Action.Agree.retain h)

end Agree

namespace Blind

variable {x : Trial ε α} {f : α → Trial ε β}

theorem pure (a : α) : Blind (Pure.pure a : Trial ε α) := fun _ => .pure rfl

theorem throw (e : ε) : Blind (MonadExcept.throw e : Trial ε α) := fun _ => .throw e

theorem lift {x : Action α} (hx : Action.Blind x) : Blind (ExceptT.lift x : Trial ε α) :=
  fun g => .lift (hx g)

theorem bind (hx : Blind x) (hf : ∀ a, Blind (f a)) : Blind (x >>= f) :=
  fun g => (hx g).andThen fun g' _ a => hf a g'

theorem adapt (f : ε → ε') (hx : Blind x) : Blind (ExceptT.adapt f x) := fun g => (hx g).adapt f

end Blind

end Trial

/-! ## Failures of the cache -/

section

variable {R : Namings → α → β → Prop}

theorem Build.agree_failReleasing {held held' : List Owned} (h : Owned.Twins g held held')
    (e : Error) : Trial.Agree g R (failReleasing held e : Build α) (failReleasing held' e) :=
  relates_failReleasing (Action.Agree.release h) e

theorem Build.agree_guarding {held held' : List Owned} {x y : Build α}
    {R : Namings → α → α → Prop} (hx : Trial.Agree g R x y)
    (hheld : ∀ g', g ≤ g' → Owned.Twins g' held held') :
    Trial.Agree g R (guarding held x) (guarding held' y) :=
  relates_guarding hx fun g' hg => Action.Agree.release (hheld g' hg)

end

/-! ## Hosts -/

/-- The host does not see how names are shared. -/
structure Host.Blind (host : Host) : Prop where
  callMethod : ∀ v method, Trial.Blind (host.callMethod v method)
  callCode : ∀ c args, Trial.Blind (host.callCode c args)
  derivesFrom : ∀ {g w v}, World.Twin g w v → ∀ x name,
    host.derivesFrom w x name = host.derivesFrom v x name
  class? : ∀ {g w v}, World.Twin g w v → ∀ name, host.class? w name = host.class? v name
  generation : ∀ {g w v}, World.Twin g w v → ∀ c, host.generation w c = host.generation v c

end MetaCache
