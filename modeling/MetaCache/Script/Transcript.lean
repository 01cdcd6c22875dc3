import MetaCache.Script.Variable
/-!
# Transcripts

What happens during a step is reported with it: the events in the store, and the steps that host
code has run, each after what happened during it. A step may start a new cache; the operation it
interrupts goes on with the one it began with.

* `Report`: what is reported of a step.
* `World.drain`, `World.finish`, `World.report`: the transcript of a step.
* `World.handOver`, `World.resume`: the change from one cache to another.
-/

namespace MetaCache

open Script

namespace Script

/-- What is reported of a step: its answer, and the state it left. -/
structure Report where
  /-- The answer of the step; the last report has none. -/
  answer : Option Answer
  stats : Stats
  /-- The number of names in the key table that are alive, and of all in it. -/
  live : Nat
  tracked : Nat
  /-- The number of method calls so far. -/
  calls : Nat
  /-- What happened during the step, in order. -/
  entries : List Entry

end Script

namespace World

/-- The world with the cache in charge that is to take over, if there is one; and the cache that was
in charge until then. -/
def handOver (w : World) : Option Cache × World :=
  match w.session.successor with
  | none => (none, w)
  | some c => (some w.cache, { w with cache := c, session := { w.session with successor := none } })

/-- The world with a suspended cache in charge again; the one that was in charge takes over
later. -/
def resume (suspended : Option Cache) (w : World) : World :=
  match suspended with
  | none => w
  | some c => { w with cache := c, session := { w.session with successor := some w.cache } }

/-- Moves what has happened from the journal of the store to the transcript. -/
def drain (w : World) : World :=
  { w with
    store := { w.store with journal := [] }
    session := { w.session with
      transcript := w.session.transcript ++ w.store.journal.reverse.map .event } }

/-- Reports a step that host code has run. -/
def finish (name : String) (answer : Answer) (w : World) : World :=
  let w := w.drain
  { w with session := { w.session with
      transcript := w.session.transcript ++ [.finished name answer] } }

/-- The report on the world as a step left it. -/
def report (answer : Option Answer) (w : World) : Report × World :=
  let w := w.drain
  ({ answer, stats := w.cache.stats, live := w.cache.keys.liveCount w.store,
     tracked := w.cache.keys.tracked, calls := w.registry.calls,
     entries := w.session.transcript },
    { w with session := { w.session with transcript := [] } })

end World

end MetaCache
