import MetaCache.Host
import MetaCache.Proofs.Ownership.Update
/-!
# Bookkeeping of a computation

A ledger is a relation between worlds that keeps the books of a computation: what it holds before
and after. It has an entry for each thing that a compilation does on its own, and one for a query.
What a compilation does in all is then one entry of any ledger, found by going through its steps
once (`MetaCache.Proofs.Compile.Books`).

* `Introspection`, `Query`: the methods asked of metaobjects, and a call of one with the worlds
  before and after it.
* `Ledger`: the relation, with its entries.
* `Ledger.Meets`: a computation whose outcome holds what is said, and which does not end only if one
  of its queries does not.
* `Ledger.Meets.bind`: computations in sequence.
-/

namespace MetaCache

/-- What a metaobject is asked. -/
inductive Introspection where
  | ofAttribute (q : AttributeQuery)
  | ofInstance (q : InstanceQuery)
deriving DecidableEq

/-- The name of the method. -/
def Introspection.name : Introspection → String
  | ofAttribute q => q.method
  | ofInstance q => q.method

/-- A call of such a method: the world in which it was made, its reply, and the world that this
left. -/
structure Query where
  invocant : Value
  method : Introspection
  before : World
  reply : Except HostError (List Value)
  after : World

/-- The shares that a reply gives, or those of the value thrown. -/
def ownedByReply : Except HostError (List Value) → List Owned
  | .ok vs => ownedByAll vs
  | .error e => e.thrown.owned

/-- The host answers the query that way. -/
def Host.Answers (host : Host) (q : Query) : Prop :=
  host.callMethod q.invocant q.method.name q.before = .ok (q.reply, q.after)

/-- Two hosts answer the questions that run no host code alike. -/
structure Host.Reads (host host' : Host) : Prop where
  derivesFrom : host.derivesFrom = host'.derivesFrom
  class? : host.class? = host'.class?
  generation : host.generation = host'.generation

theorem Host.Reads.refl (host : Host) : host.Reads host := ⟨rfl, rfl, rfl⟩

/-- What the outcome of a computation holds. -/
def outcome {α : Type} (post : α → Holding) : Except Error α → Holding
  | .ok a => post a
  | .error e => holding e.owned

/-- A relation that keeps the books: `Step w f w' f'` leads from `w`, with `f` held, to `w'`, with
`f'` held. -/
structure Ledger (host : Host) where
  Step : World → Holding → World → Holding → Prop
  refl : ∀ w f, Step w f w f
  trans : ∀ {w w' w'' f f' f''}, Step w f w' f' → Step w' f' w'' f'' → Step w f w'' f''
  frame : ∀ {w w' f f'} g, Step w f w' f' → Step w (f + g) w' (f' + g)
  release : ∀ w os, Step w (holding os) (w.onStore (·.release os)) 0
  note : ∀ w n, Step w 0 (w.onStore (·.note n)) 0
  retainWeak : ∀ w c, Step w 0 (w.onStore (·.retain [.weakCell c])) (holding [.weakCell c])
  retainClass : ∀ {w name c}, host.class? w name = some c →
    Step w 0 (w.onStore (·.retain [.cell c])) (holding [.cell c])
  key : ∀ w name, Step w 0 (w.key name).2 (holding (w.key name).1.owned)
  upgrade : ∀ (w : World) v, Step w (holding v.owned)
    { w with store := (w.store.upgrade v).2 } (holding (w.store.upgrade v).1.owned)
  query : ∀ {q : Query}, host.Answers q →
    Step q.before 0 q.after (holding (ownedByReply q.reply))

theorem Build.bind_apply {α β : Type} (x : Build α) (f : α → Build β) (w : World) :
    (x >>= f) w = match x w with
      | .error h => .error h
      | .ok (.ok a, w₁) => f a w₁
      | .ok (.error e, w₁) => .ok (.error e, w₁) := by
  show Except.bind (x w) _ = _
  cases x w with
  | error h => rfl
  | ok p =>
    obtain ⟨r, w₁⟩ := p
    cases r <;> rfl

theorem Build.bind_eq_ok {α β : Type} {x : Build α} {f : α → Build β} {w w' : World} {b : β}
    (h : (x >>= f) w = .ok (.ok b, w')) :
    ∃ a w₁, x w = .ok (.ok a, w₁) ∧ f a w₁ = .ok (.ok b, w') := by
  rw [Build.bind_apply] at h
  split at h
  · cases h
  · exact ⟨_, _, ‹_›, h⟩
  · cases h

theorem Build.guarding_apply {α : Type} (os : List Owned) (x : Build α) (w : World) :
    Build.guarding os x w = match x w with
      | .error h => .error h
      | .ok (.ok a, w₁) => .ok (.ok a, w₁)
      | .ok (.error e, w₁) => .ok (.error e, w₁.onStore (·.release os)) := by
  show Except.bind (x w) _ = _
  cases x w with
  | error h => rfl
  | ok p =>
    obtain ⟨r, w₁⟩ := p
    cases r <;> rfl

theorem Host.askList_apply (host : Host) (v : Value) (m : String) (w : World) :
    host.askList v m w =
      (host.callMethod v m w).map fun p => (p.1.mapError Error.host, p.2) := by
  show Except.bind (host.callMethod v m w) _ = _
  cases host.callMethod v m w <;> rfl

namespace Ledger

variable {host : Host} (L : Ledger host) {α β : Type}

/-- What becomes of the computation in `w` is entered in the ledger, from `pre` held on. -/
structure MeetsAt (w : World) (x : Build α) (pre : Holding) (post : α → Holding) : Prop where
  /-- A computation that ends is entered up to what its outcome holds. -/
  done : ∀ r w', x w = .ok (r, w') → L.Step w pre w' (outcome post r)
  /-- A computation that does not end is entered up to the method call that does not. -/
  stuck : ∀ e, x w = .error e →
    ∃ w' held v m, L.Step w pre w' held ∧ host.callMethod v m w' = .error e

/-- The computation meets the ledger in every world. -/
def Meets (x : Build α) (pre : Holding) (post : α → Holding) : Prop :=
  ∀ w, L.MeetsAt w x pre post

variable {L} {x : Build α} {f : α → Build β} {pre : Holding} {mid : α → Holding}
  {post : β → Holding}

/-- A computation that comes to `w₁` and goes on from there like one that meets the ledger. -/
theorem MeetsAt.after {x y : Build β} {w w₁ : World} {held : Holding}
    (hs : L.Step w pre w₁ held) (hrun : x w = y w₁) (hy : L.MeetsAt w₁ y held post) :
    L.MeetsAt w x pre post where
  done r w' h := L.trans hs (hy.done r w' (hrun.symm.trans h))
  stuck e h := by
    obtain ⟨w', held', v, m, hs', hv⟩ := hy.stuck e (hrun.symm.trans h)
    exact ⟨w', held', v, m, L.trans hs hs', hv⟩

/-- One computation after another. -/
theorem Meets.bind (hx : L.Meets x pre mid) (hf : ∀ a, L.Meets (f a) (mid a) post) :
    L.Meets (x >>= f) pre post := by
  intro w
  cases hxw : x w with
  | error halt =>
    have hrun : (x >>= f) w = .error halt := by rw [Build.bind_apply, hxw]
    refine ⟨fun r w' h => ?_, fun e h => ?_⟩
    · cases hrun.symm.trans h
    · cases hrun.symm.trans h
      exact (hx w).stuck _ hxw
  | ok p =>
    obtain ⟨r, w₁⟩ := p
    have hs := (hx w).done _ _ hxw
    cases r with
    | error e =>
      -- the failure of the first computation is that of both
      have hrun : (x >>= f) w = .ok (.error e, w₁) := by rw [Build.bind_apply, hxw]
      refine ⟨fun r w' h => ?_, fun e' h => ?_⟩
      · cases hrun.symm.trans h
        exact hs
      · cases hrun.symm.trans h
    | ok a => exact .after hs (by rw [Build.bind_apply, hxw]) (hf a w₁)

/-- A step of the computation's own, which asks nothing of the host. -/
theorem meetsAt_of_step {w w' : World} {x : Build α} {r : Except Error α} {post : α → Holding}
    (hx : x w = .ok (r, w')) (hs : L.Step w pre w' (outcome post r)) :
    L.MeetsAt w x pre post where
  done r' w'' h := by
    cases hx.symm.trans h
    exact hs
  stuck e h := by cases hx.symm.trans h

theorem meets_pure (a : α) (post : α → Holding) : L.Meets (pure a) (post a) post :=
  fun w => meetsAt_of_step (r := .ok a) rfl (L.refl w _)

end Ledger

end MetaCache
