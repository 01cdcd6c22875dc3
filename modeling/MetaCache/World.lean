import MetaCache.KeyTable
import MetaCache.Script.Report
/-!
# The state of a run

A run has a store, a cache, the registry of the host and the session of the script. Host code may
act on all of them.

* `World`: the four together.
* `Action`: a computation on the world, which host code may keep from ending.
* `Build`: an action that may fail with an error of the cache.
-/

namespace MetaCache

/-- The counters of a cache. -/
structure Stats where
  /-- Lookups answered from an extension slot. -/
  hits : Nat := 0
  /-- Structures compiled and put into an extension slot by a lookup. -/
  builds : Nat := 0
  /-- Records discarded, as stale or on request. -/
  invalidations : Nat := 0
deriving DecidableEq, Repr, Inhabited

/-- The counters on one line. -/
def Stats.shown (s : Stats) : String :=
  Text.record "CacheStats"
    [("hits", toString s.hits), ("builds", toString s.builds),
      ("invalidations", toString s.invalidations)]

/-- Tells which default generators do no more than produce an empty container, and of which kind. -/
abbrev Classifier := Code → Option ContainerKind

/-- The classifier that recognises nothing. -/
def Classifier.never : Classifier := fun _ => none

/-- The classifier that goes by the name of the code. -/
def Classifier.byName (kinds : List (String × ContainerKind)) : Classifier :=
  fun code => code.name.bind fun n => kinds.lookup n

/-- A cache: its settings, its key table and its counters. -/
structure Cache where
  config : Config := {}
  classifier : Classifier := .never
  /-- The hash of a name. -/
  nameHash : String → UInt32 := Text.nameHash
  keys : KeyTable := {}
  stats : Stats := {}

instance : Inhabited Cache := ⟨{}⟩

/-- What the host knows by name: its classes and its methods, each a strong reference, and the
number of method calls so far. -/
structure Registry where
  classes : List (String × CellId) := []
  methods : List (String × CellId) := []
  calls : Nat := 0

namespace Script

/-- What a variable holds. -/
inductive Binding where
  | value (v : Value)
  | key (k : Key)
  | descriptor (p : PayloadId)
  | shadow (p : PayloadId)
  /-- A weak handle on a descriptor or a shadow. -/
  | weakHandle (p : PayloadId)
  | record (r : Record)

/-- The shares a binding holds. -/
def Binding.owned : Binding → List Owned
  | value v => v.owned
  | key k => k.owned
  | descriptor p | shadow p => [.payload p]
  | weakHandle p => [.weakPayload p]
  | record r => r.owned

/-- The state of a script. -/
structure Session where
  /-- The variables, in ascending order of name. -/
  vars : List (String × Binding) := []
  /-- What happened during the step at hand, oldest first. -/
  transcript : List Entry := []
  /-- The cache that takes over as soon as the running operation has ended. -/
  successor : Option Cache := none

end Script

/-- The state of a run. -/
structure World where
  store : Store := {}
  cache : Cache := {}
  registry : Registry := {}
  session : Script.Session := {}

instance : Inhabited World := ⟨{}⟩

/-- The shares an error holds: those of the value thrown. -/
def Error.owned : Error → List Owned
  | .host e => e.thrown.owned
  | _ => []

/-- Why a run stopped without an answer. -/
inductive Halt where
  /-- Host code called host code more deeply than the run allows. -/
  | exhausted
  /-- The script asked for something that makes no sense. -/
  | refused (reason : String)
deriving DecidableEq, Repr

/-- A computation on the world. -/
abbrev Action := StateT World (Except Halt)

/-- A computation on the world that may fail with an error of the cache. -/
abbrev Build := ExceptT Error Action

namespace World

/-- The world with its store changed. -/
def onStore (f : Store → Store) (w : World) : World :=
  { w with store := f w.store }

/-- The world with the counters of its cache changed. -/
def count (f : Stats → Stats) (w : World) : World :=
  { w with cache := { w.cache with stats := f w.cache.stats } }

/-- The key of a slot or of an init-arg: from the key table, unless names are not to be shared. -/
def key (name : String) (w : World) : Key × World :=
  if w.cache.config.shareSlotKeys then
    let (k, keys, store) := w.cache.keys.intern w.cache.nameHash name w.store
    (k, { w with cache := { w.cache with keys }, store })
  else
    let (shared, store) := w.store.newName name
    (⟨shared, w.cache.nameHash name⟩, { w with store })

/-- Sweeps the key table. -/
def sweepKeys (w : World) : World :=
  let (keys, store) := w.cache.keys.sweep w.store
  { w with cache := { w.cache with keys }, store }

end World

namespace Action

section

variable {m : Type → Type} [Monad m] [MonadStateOf World m] {α : Type}

/-- Changes the store. -/
def onStore (f : Store → Store) : m Unit :=
  modify (World.onStore f)

/-- Changes the store and answers. -/
def withStore (f : Store → α × Store) : m α :=
  modifyGet fun w => ((f w.store).1, { w with store := (f w.store).2 })

/-- Takes shares. -/
def retain (os : List Owned) : m Unit :=
  onStore (·.retain os)

/-- Gives shares back. -/
def release (os : List Owned) : m Unit :=
  onStore (·.release os)

/-- Writes a note. -/
def note (n : Note) : m Unit :=
  onStore (·.note n)

/-- Reads from the store. -/
def readStore (f : Store → α) : m α :=
  return f (← get).store

end

/-- Stops the run. -/
def halt {α : Type} (h : Halt) : Action α :=
  fun _ => .error h

/-- Refuses the script. -/
def refuse {α : Type} (reason : String) : Action α :=
  halt (.refused reason)

end Action

namespace Build

variable {α : Type}

/-- Fails with an error, after giving `held` back. -/
def failReleasing (held : List Owned) (e : Error) : Build α := do
  Action.release held
  throw e

/-- Runs `x`; if it fails, gives `held` back before the failure is passed on. -/
def guarding (held : List Owned) (x : Build α) : Build α :=
  tryCatch x (failReleasing held)

end Build

end MetaCache
