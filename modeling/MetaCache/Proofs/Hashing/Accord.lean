import MetaCache.Proofs.Hashing.Names
import MetaCache.Proofs.Relational
/-!
# Computations in accord

Two computations are in accord if from matching worlds both stop for the same reason, or both end,
in worlds that match again. More names may have been given out by then.

* `Action.Accord`, `Trial.Accord`: computations on the world, and computations that may fail; they
  fail with the same error.
* `Action.Accord.onStore`, `Action.Accord.withStore`, `Action.Accord.release`: changes of the store.
* `Action.Accord.readStore_bind`: what is read of the store.
* `Host.Steady`: a host that does not see hashes.
-/

namespace MetaCache

variable {α β ε : Type} {g : Hashings} {R : Hashings → α → α → Prop} {S : Hashings → β → β → Prop}

/-- From matching worlds the computations come to results of which `R` holds. -/
abbrev Action.Accord (g : Hashings) (R : Hashings → α → α → Prop) (x y : Action α) : Prop :=
  Action.Relates World.Matches g R x y

/-- From matching worlds the computations fail with the same error, or come to results of which `R`
holds. -/
abbrev Trial.Accord (g : Hashings) (R : Hashings → α → α → Prop) (x y : Trial ε α) :
    Prop :=
  Trial.Relates World.Matches g R x y

/-! ## Computations on the world -/

namespace Action.Accord

theorem onStore {f f' : Store → Store}
    (h : ∀ {a b s t}, Store.Matches g a b s t → (f s).Matches g a b (f' t)) :
    Accord g Equal (Action.onStore f) (Action.onStore f') :=
  Relates.modify fun _ _ hw => hw.withStore (h hw.store)

theorem withStore {f f' : Store → α × Store}
    (h : ∀ {a b s t}, Store.Matches g a b s t →
      R g (f s).1 (f' t).1 ∧ (f s).2.Matches g a b (f' t).2) :
    Accord g R (Action.withStore f) (Action.withStore f') :=
  Relates.change fun _ _ hw => ⟨(h hw.store).1, hw.withStore (h hw.store).2⟩

theorem retain (os : List Owned) : Accord g Equal (Action.retain os) (Action.retain os) :=
  onStore fun hs => hs.retain os

theorem release {os os' : List Owned} (h : os.map Owned.unhashed = os'.map Owned.unhashed) :
    Accord g Equal (Action.release os) (Action.release os') :=
  onStore fun hs => hs.release h

/-- A computation that goes on from what is read of the store. -/
theorem read_bind {r : Store → α} {f f' : α → Action β}
    (h : ∀ {a b s t}, Store.Matches g a b s t → Accord g S (f (r s)) (f' (r t))) :
    Accord g S (Action.readStore r >>= f) (Action.readStore r >>= f') :=
  fun _ _ hw => h hw.store hw

/-- A computation that goes on from what is read of the store, where no hash is. -/
theorem readStore_bind {r : Store → α} {f f' : α → Action β} (hr : ∀ s, r s.unhashed = r s)
    (h : ∀ a, Accord g S (f a) (f' a)) :
    Accord g S (Action.readStore r >>= f) (Action.readStore r >>= f') := by
  refine read_bind fun hs => ?_
  rw [hs.read hr]
  exact h _

end Action.Accord

/-! ## Computations that may fail -/

namespace Trial.Accord

theorem readStore_bind {r : Store → α} {f f' : α → Trial ε β}
    (hr : ∀ s, r s.unhashed = r s) (h : ∀ a, Accord g S (f a) (f' a)) :
    Accord g S (Action.readStore r >>= f) (Action.readStore r >>= f') :=
  Action.Accord.readStore_bind hr h

theorem note (n m : Note) :
    Accord g Equal (Action.note n : Trial ε Unit) (Action.note m) :=
  Relates.lift (Action.Accord.onStore fun hs => hs.note n m)

theorem release {os os' : List Owned} (h : os.map Owned.unhashed = os'.map Owned.unhashed) :
    Accord g Equal (Action.release os : Trial ε Unit) (Action.release os') :=
  Relates.lift (Action.Accord.release h)

theorem retain (os : List Owned) :
    Accord g Equal (Action.retain os : Trial ε Unit) (Action.retain os) :=
  Relates.lift (Action.Accord.retain os)

end Trial.Accord

/-! ## Failures of the cache -/

section

variable {held held' : List Owned}

theorem Build.accord_failReleasing (h : held.map Owned.unhashed = held'.map Owned.unhashed)
    (e : Error) : Trial.Accord g R (failReleasing held e : Build α) (failReleasing held' e) :=
  relates_failReleasing (Action.Accord.release h) e

theorem Build.accord_guarding {x y : Build α} (hx : Trial.Accord g R x y)
    (h : held.map Owned.unhashed = held'.map Owned.unhashed) :
    Trial.Accord g R (guarding held x) (guarding held' y) :=
  relates_guarding hx fun _ _ => Action.Accord.release h

end

/-! ## Hosts -/

/-- The host does not see hashes: its calls are in accord, and what else it answers is the same for
worlds that are the same without hashes. -/
structure Host.Steady (host : Host) : Prop where
  callMethod : ∀ g v method, Trial.Accord g Equal (host.callMethod v method)
    (host.callMethod v method)
  callCode : ∀ g c args, Trial.Accord g Equal (host.callCode c args) (host.callCode c args)
  derivesFrom : ∀ {w v : World}, w.unhashed = v.unhashed → ∀ x name,
    host.derivesFrom w x name = host.derivesFrom v x name
  class? : ∀ {w v : World}, w.unhashed = v.unhashed → ∀ name,
    host.class? w name = host.class? v name
  generation : ∀ {w v : World}, w.unhashed = v.unhashed → ∀ c,
    host.generation w c = host.generation v c

end MetaCache
