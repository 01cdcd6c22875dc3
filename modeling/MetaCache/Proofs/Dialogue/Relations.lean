import MetaCache.Proofs.Dialogue.Basic
/-!
# Relations that a compilation keeps

What is true of all that a compilation does on its own, and of the answers it gets, is true of the
whole compilation. So a relation of worlds, with what is held in them, that both keep is a ledger.

* `Ledger.ofWork`: the ledger of a relation of worlds with what is held in them.
* `Ledger.ofRelation`: the ledger of a relation of worlds.
-/

namespace MetaCache.Ledger

variable {host : Host}

/-- The ledger of a relation that holds of work, with what it takes and gives, and of answers. -/
def ofWork {Step : World → Holding → World → Holding → Prop} (refl : ∀ w f, Step w f w f)
    (trans : ∀ {w w' w'' f f' f''}, Step w f w' f' → Step w' f' w'' f'' → Step w f w'' f'')
    (frame : ∀ {w w' f f'} g, Step w f w' f' → Step w (f + g) w' (f' + g))
    (work : ∀ {β : Type} (x : Work β) (w : World),
      Step w x.takes (x.apply host w).2 (x.gives (x.apply host w).1))
    (query : ∀ {q : Query}, host.Answers q →
      Step q.before 0 q.after (holding (ownedByReply q.reply))) : Ledger host where
  Step := Step
  refl := refl
  trans := trans
  frame := frame
  release w os := work (.release os) w
  note w n := work (.note n) w
  retainWeak w c := work (.retainWeak c) w
  retainClass {w name c} hc := by
    have h := work (.findClass name) w
    simp only [Work.apply, Work.takes, Work.gives, hc] at h
    exact h
  key w name := work (.key name) w
  upgrade w v := work (.upgrade v) w
  query := query

/-- The ledger of a relation that has nothing to do with what is held. -/
def ofRelation {R : World → World → Prop} (refl : ∀ w, R w w)
    (trans : ∀ {w w' w''}, R w w' → R w' w'' → R w w'')
    (work : ∀ {β : Type} (x : Work β) (w : World), R w (x.apply host w).2)
    (query : ∀ {q : Query}, host.Answers q → R q.before q.after) : Ledger host :=
  @ofWork host (fun w _ w' _ => R w w') (fun w _ => refl w) trans (fun _ h => h) work query

end MetaCache.Ledger
