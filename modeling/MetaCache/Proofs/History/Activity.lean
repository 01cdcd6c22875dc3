import Mathlib.Tactic.Choose
import MetaCache.Proofs.Dialogue.Lookup
import MetaCache.Proofs.History.Later
/-!
# Runs

A run is made of lookups, of discards on request, and of whatever else host code does: redefining
classes, letting metaobjects answer in another way, taking and dropping references. While a lookup
compiles, the methods it calls may do all of this as well, so that runs are nested in lookups to any
depth. Only the cache writes extension slots.

A run is told by its deeds: the calls of lookups and what they return, what they ask and what they
are replied, and the changes and discards in between, each with the world in which it takes place.
What host code does before it replies stands between the query and the reply.

* `Host.Change`: what host code does besides calling the cache.
* `Deed`: what happens in a run.
* `Activity`: runs that have come to their end; `Activity.frame`.
* `Reaches`: runs that may still be inside of host code called by a lookup.
* `Host.Acts`: runs in which nobody but the cache touches its counters.
-/

namespace MetaCache

/-- What becomes of the holder of `f`, who holds `f'` in the end, if no extension slot is written on
the way and no one is robbed of what he holds. -/
structure Host.Change (host : Host) (w : World) (f : Holding) (w' : World) (f' : Holding) : Prop
    extends host.Calm w w' where
  covers : ∀ g, w.Covers (f + g) → w'.Covers (f' + g)

namespace Host.Change

variable {host : Host} {w w' w'' : World} {f f' f'' : Holding}

theorem refl (w : World) (f : Holding) : host.Change w f w f := ⟨.refl w, fun _ h => h⟩

theorem trans (h : host.Change w f w' f') (h' : host.Change w' f' w'' f'') :
    host.Change w f w'' f'' :=
  ⟨h.toCalm.trans h'.toCalm, fun g hg => h'.covers g (h.covers g hg)⟩

theorem frame (h : host.Change w f w' f') (g : Holding) : host.Change w (f + g) w' (f' + g) where
  toCalm := h.toCalm
  covers k hk := by
    rw [add_assoc] at hk ⊢
    exact h.covers _ hk

end Host.Change

/-! ## Deeds -/

/-- What happens in a run, with the world in which it happens, or those before and after. -/
inductive Deed where
  /-- Host code did something other than calling the cache. -/
  | changed (before after : World)
  | invalidated (v : Value) (before after : World)
  | called (l : Lookup) (w : World)
  /-- A lookup called a method of a value. -/
  | asked (v : Value) (m : Introspection) (w : World)
  | replied (reply : Except HostError (List Value)) (w : World)
  | returned (l : Lookup) (r : Except Error PayloadId) (w : World)

/-- The counters are the cache's own: nothing else that host code does touches them. -/
def Deed.Steady : Deed → Prop
  | changed before after => after.cache.stats = before.cache.stats
  | _ => True

/-- The deeds of a query, given those in between. -/
def Query.deeds (told : Query → List Deed) (q : Query) : List Deed :=
  .asked q.invocant q.method q.before :: (told q ++ [.replied q.reply q.after])

/-- The deeds of a lookup in `w` up to the last reply that it gets, given what happens while it
waits. -/
def Lookup.deeds (inner : Host) (l : Lookup) (w : World) (told : Query → List Deed) :
    List Deed :=
  .called l w :: (l.queries inner w).flatMap (Query.deeds told)

/-! ## Runs -/

/-- What the holder of `f` may do in a run, who holds `f'` in the end, and the deeds. -/
inductive Activity (host : Host) : World → Holding → List Deed → World → Holding → Prop where
  | change {w w' : World} {f f' : Holding} : host.Change w f w' f' →
    Activity host w f [.changed w w'] w' f'
  | trans {w w' w'' : World} {f f' f'' : Holding} {ds ds' : List Deed} :
    Activity host w f ds w' f' → Activity host w' f' ds' w'' f'' →
    Activity host w f (ds ++ ds') w'' f''
  | invalidate (w : World) (f : Holding) (v : Value) :
    Activity host w f [.invalidated v w (w.invalidate v).2] (w.invalidate v).2 f
  /-- A lookup on a host whose methods do such things when the lookup calls them. -/
  | lookup {inner : Host} {l : Lookup} {w w' : World} {r : Except Error PayloadId}
    {told : Query → List Deed} (f : Holding) : inner.Reads host →
    (∀ q ∈ l.queries inner w,
      Activity host q.before 0 (told q) q.after (holding (ownedByReply q.reply))) →
    l.run inner w = .ok (r, w') →
    Activity host w (holding l.owned + f) (l.deeds inner w told ++ [.returned l r w']) w'
      (outcome (fun p => holding [.payload p]) r + (holding l.owned + f))

/-- The worlds that a run comes to, whether it has left all lookups by then or is in the midst of
some, and the deeds up to then. A lookup that has not ended is one on a host that leaves the method
call at hand, and no other, without a reply. -/
inductive Reaches (host : Host) : World → Holding → List Deed → World → Prop where
  | here {w : World} {f : Holding} : Reaches host w f [] w
  | after {w w' w'' : World} {f f' : Holding} {ds ds' : List Deed} : Activity host w f ds w' f' →
    Reaches host w' f' ds' w'' → Reaches host w f (ds ++ ds') w''
  | inside {inner : Host} {l : Lookup} {w w₁ w' : World} {v : Value} {m : Introspection} {e : Halt}
    {told : Query → List Deed} {ds : List Deed} {f : Holding} : inner.Reads host →
    (∀ q ∈ l.queries inner w,
      Activity host q.before 0 (told q) q.after (holding (ownedByReply q.reply))) →
    l.run inner w = .error e →
    (∀ v' m' w', inner.callMethod v' m' w' = .error e → v' = v ∧ m' = m.name ∧ w' = w₁) →
    Reaches host w₁ 0 ds w' →
    Reaches host w (holding l.owned + f) (l.deeds inner w told ++ .asked v m w₁ :: ds) w'

variable {host : Host} {w w' : World} {f f' : Holding} {ds : List Deed}

/-- A run goes on in the same way if more is held, and leaves it. -/
theorem Activity.frame (h : Activity host w f ds w' f') (g : Holding) :
    Activity host w (f + g) ds w' (f' + g) := by
  induction h with
  | change hc => exact .change (hc.frame g)
  | trans _ _ ih ih' => exact .trans ih ih'
  | invalidate w f v => exact .invalidate w (f + g) v
  | lookup f hr hq hrun _ =>
    rw [add_assoc, add_assoc, add_assoc]
    exact .lookup (f + g) hr hq hrun

/-! ## Steady runs -/

/-- The holder of `f` may come from `w` to `w'`, where he holds `f'`, and leave the counters to the
cache. -/
def Host.Acts (host : Host) (w : World) (f : Holding) (w' : World) (f' : Holding) : Prop :=
  ∃ ds, Activity host w f ds w' f' ∧ ∀ d ∈ ds, d.Steady

namespace Host.Acts

variable {w'' : World} {f'' : Holding}

theorem change (h : host.Change w f w' f') (hstats : w'.cache.stats = w.cache.stats) :
    host.Acts w f w' f' :=
  ⟨_, .change h, List.forall_mem_singleton.2 hstats⟩

theorem refl (w : World) (f : Holding) : host.Acts w f w f := .change (.refl w f) rfl

theorem trans (h : host.Acts w f w' f') (h' : host.Acts w' f' w'' f'') :
    host.Acts w f w'' f'' := by
  obtain ⟨ds, hact, hds⟩ := h
  obtain ⟨ds', hact', hds'⟩ := h'
  exact ⟨_, hact.trans hact', List.forall_mem_append.2 ⟨hds, hds'⟩⟩

/-- A lookup, if all that its methods do may be done. -/
theorem lookup {inner : Host} {l : Lookup} {r : Except Error PayloadId} (f : Holding)
    (hr : inner.Reads host) (hrun : l.run inner w = .ok (r, w'))
    (hq : ∀ q ∈ l.queries inner w,
      host.Acts q.before 0 q.after (holding (ownedByReply q.reply))) :
    host.Acts w (holding l.owned + f) w'
      (outcome (fun p => holding [.payload p]) r + (holding l.owned + f)) := by
  choose! told hact hsteady using hq
  refine ⟨_, .lookup f hr hact hrun, ?_⟩
  rw [Lookup.deeds, List.cons_append, List.forall_mem_cons, List.forall_mem_append]
  refine ⟨trivial, fun d hd => ?_, List.forall_mem_singleton.2 trivial⟩
  obtain ⟨q, hq, hd⟩ := List.mem_flatMap.1 hd
  rcases List.mem_cons.1 hd with rfl | hd
  · trivial
  · rcases List.mem_append.1 hd with hd | hd
    · exact hsteady q hq d hd
    · rw [List.mem_singleton.1 hd]
      trivial

end Host.Acts

end MetaCache
