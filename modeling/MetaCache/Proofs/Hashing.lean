import MetaCache.Proofs.Hashing.Programs
/-!
# Hashes are not seen

The hash of a name is compared wherever keys are: before two keys are taken for the same slot, when
an instance is searched for a slot, when a shadow is searched for a descriptor, and when the key
table looks for the bucket of a name. Each time the name decides. So it makes no difference how
names are hashed, be it that all of them have one hash: a program is answered the same, finds the
same descriptors, reads and writes the same slots, gets keys that share the same names, and leaves
the same world but for the hashes, the dead entries of the key table and the notes.

* `World.new`: the world in which a run begins.
* `Client.Program.outcome`: what a run shows.
* `outcome_hashing`: it does not depend on the hash.
-/

namespace MetaCache

/-- The world in which a run begins: a cache with its settings, which hashes names by `hash`. -/
def World.new (config : Config) (classifier : Classifier) (hash : String → UInt32) : World where
  cache := { config, classifier, nameHash := hash }

/-- What a run of a program shows: its result, all of the world at the end that has nothing to do
with hashes, and how many names are alive in the key table. -/
def Client.Program.outcome {β : Type} (p : Client.Program β) (host : Host) (w : World) :
    Except Halt (β × World × Nat) :=
  (p.run host w).map fun done =>
    (done.1, done.2.unhashed, done.2.cache.keys.liveCount done.2.store)

/-- Nothing has been hashed yet. -/
theorem World.matches_new (config : Config) (classifier : Classifier)
    (hash hash' : String → UInt32) :
    World.Matches ⟨hash, hash', fun _ => "", 0⟩ (new config classifier hash)
      (new config classifier hash') := by
  have hkeyed (hash : String → UInt32) : Store.Keyed hash ⟨fun _ => "", 0⟩ {} {} :=
    { bound := rfl
      keys := fun k hk => by
        rcases hk with ⟨c, r, hr, -⟩ | ⟨p, x, hx, -⟩
        · cases hr
        · cases hx
      table := fun m hm => (List.not_mem_nil hm).elim
      tidy := .empty hash {} }
  exact {
    store := ⟨rfl, hkeyed hash, hkeyed hash', fun _ => .rfl⟩
    cache := rfl
    left := rfl
    right := rfl
    registry := rfl
    session := .of_keys_eq_nil rfl }

/-- What has come to the same shows the same. -/
theorem Concluded.outcome_eq {g : Hashings} {β : Type} {p : Client.Program β} {host : Host}
    {w v : World}
    (h : Concluded (fun g _ _ => World.Matches g) g Equal (p.run host w) (p.run host v)) :
    p.outcome host w = p.outcome host v := by
  rw [Client.Program.outcome, Client.Program.outcome]
  generalize p.run host w = x at h ⊢
  generalize p.run host v = y at h ⊢
  cases h with
  | done _ hxy hw =>
    refine congrArg Except.ok (Prod.ext hxy (Prod.ext hw.unhashed ?_))
    exact hw.store.liveCount_eq
  | halt h => rfl

/-- Whatever a program does with the cache, and whatever programs the host answers by, it makes no
difference how names are hashed. -/
theorem outcome_hashing (hash hash' : String → UInt32) (config : Config) (classifier : Classifier)
    (client : Client) (depth : Nat) {β : Type} (p : Client.Program β) :
    p.outcome (client.host depth) (.new config classifier hash) =
      p.outcome (client.host depth) (.new config classifier hash') :=
  (p.accord_run (client.steady_host depth)
    (World.matches_new config classifier hash hash')).outcome_eq

end MetaCache
