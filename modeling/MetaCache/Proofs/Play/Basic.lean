import MetaCache.Proofs.History.Activity
/-!
# Plays

A play tells a run step by step. It alternates between host code and the cache: host code changes
what it likes, discards, and looks things up; a lookup that finds nothing to answer begins to build,
and the build goes on until it asks a metaobject. Then host code runs again, which may do all of
this as well before it replies, so that builds wait for one another to any depth. Every step is a
moment at which one can look at the world.

* `Stage`: the world, the builds that wait for host code, and who is at work.
* `Act`, `Step`, `Play`: what happens, one step, and all steps since the beginning.
* `deeds`: what can be seen of it, which leaves out what the cache does by itself.
-/

namespace MetaCache

/-! ## What a play is about -/

/-- A build: a lookup that found nothing to answer. -/
structure Task where
  /-- The number of steps that had been taken before. -/
  number : Nat
  lookup : Lookup
  target : CellId
  /-- The world in which it began to compile. -/
  began : World
  /-- What whoever called the lookup holds. -/
  caller : Holding
  /-- What has been asked and answered so far. -/
  queries : List Query := []
  /-- The steps at which these queries were made and replied to. -/
  spans : List (Nat × Nat) := []

/-- A build that waits for a reply. -/
structure Frame where
  task : Task
  invocant : Value
  method : Introspection
  /-- The world in which it asked. -/
  asked : World
  /-- The number of steps that had been taken before it asked. -/
  number : Nat
  next : Except HostError (List Value) → Dialogue Compiled

/-- Who is at work: host code, with what it holds, or a build, with what is left of it. -/
inductive Focus where
  | code (holds : Holding)
  | cache (task : Task) (rest : Dialogue Compiled)

/-- A moment of a play. The frames wait for whoever is at work, the first one first. -/
structure Stage where
  world : World
  frames : List Frame
  focus : Focus

/-- A build that has come to its end, and what it has compiled. -/
structure Product extends Task where
  compiled : Compiled
  /-- The world in which it had compiled. -/
  ended : World

namespace Product

/-- What it leaves in the slot. -/
def record (b : Product) : Record :=
  { payload := b.ended.store.payloads.next
    generation := b.compiled.generation
    governor := b.compiled.governor }

/-- What it finds in the slot in the end. -/
def found (b : Product) : Option Record := b.ended.store.extension? b.target

end Product

/-- What happens at a step. -/
inductive Act where
  /-- Host code did something other than calling the cache. -/
  | changed
  | invalidated (v : Value)
  /-- A lookup of something that has no slot. -/
  | refused (l : Lookup) (e : Error)
  /-- A lookup was answered from the slot. -/
  | hit (l : Lookup) (p : PayloadId)
  /-- A lookup found nothing to answer. What was in the slot was discarded. -/
  | missed (l : Lookup)
  /-- A build went on. -/
  | worked
  | asked (v : Value) (m : Introspection)
  | replied (reply : Except HostError (List Value))
  /-- A build put what it had compiled into the slot, and answered the lookup. -/
  | built (b : Product)
  /-- A build failed, and so did the lookup. -/
  | failed (t : Task) (e : Error)

/-- One step, before which `n` steps had been taken. -/
inductive Step (host : Host) (n : Nat) : Stage → Act → Stage → Prop where
  | changed {w w' : World} {frames : List Frame} {f f' : Holding} :
    host.Change w f w' f' →
    Step host n ⟨w, frames, .code f⟩ .changed ⟨w', frames, .code f'⟩
  | invalidated (w : World) (frames : List Frame) (f : Holding) (v : Value) :
    Step host n ⟨w, frames, .code f⟩ (.invalidated v) ⟨(w.invalidate v).2, frames, .code f⟩
  | refused {l : Lookup} (w : World) (frames : List Frame) (f : Holding) :
    (∀ c, l.object ≠ .ref c) →
    Step host n ⟨w, frames, .code f⟩
      (.refused l (.mismatch (.notAttachable (w.store.valueText l.object))))
      ⟨w, frames, .code f⟩
  | hit {l : Lookup} {c : CellId} {w w' : World} {p : PayloadId} (frames : List Frame)
    (f : Holding) : l.object = .ref c → w.cached? host l.wanted c = (some p, w') →
    Step host n ⟨w, frames, .code (holding l.owned + f)⟩ (.hit l p)
      ⟨w', frames, .code (holding [.payload p] + (holding l.owned + f))⟩
  | missed {l : Lookup} {c : CellId} {w w' : World} (frames : List Frame) (f : Holding) :
    l.object = .ref c → w.cached? host l.wanted c = (none, w') →
    Step host n ⟨w, frames, .code (holding l.owned + f)⟩ (.missed l)
      ⟨w', frames, .cache
        { number := n, lookup := l, target := c, began := w', caller := holding l.owned + f }
        (l.compilation host)⟩
  | worked {β : Type} (w : World) (frames : List Frame) (t : Task) (x : Work β)
    (next : β → Dialogue Compiled) :
    Step host n ⟨w, frames, .cache t (.does x next)⟩ .worked
      ⟨(x.apply host w).2, frames, .cache t (next (x.apply host w).1)⟩
  | asked (w : World) (frames : List Frame) (t : Task) (v : Value) (m : Introspection)
    (next : Except HostError (List Value) → Dialogue Compiled) :
    Step host n ⟨w, frames, .cache t (.asks v m next)⟩ (.asked v m)
      ⟨w, ⟨t, v, m, w, n, next⟩ :: frames, .code 0⟩
  /-- Host code gives all that it holds away with its reply. -/
  | replied (w : World) (fr : Frame) (frames : List Frame)
    (reply : Except HostError (List Value)) :
    Step host n ⟨w, fr :: frames, .code (holding (ownedByReply reply))⟩ (.replied reply)
      ⟨w, frames, .cache
        { fr.task with
          queries := fr.task.queries ++ [⟨fr.invocant, fr.method, fr.asked, reply, w⟩]
          spans := fr.task.spans ++ [(fr.number, n)] }
        (fr.next reply)⟩
  | built (w : World) (frames : List Frame) (t : Task) (x : Compiled) :
    Step host n ⟨w, frames, .cache t (.ends (.ok x))⟩
      (.built { t with compiled := x, ended := w })
      ⟨(w.publish t.target x.content x.generation x.governor).2, frames,
        .code (holding [.payload w.store.payloads.next] + t.caller)⟩
  | failed (w : World) (frames : List Frame) (t : Task) (e : Error) :
    Step host n ⟨w, frames, .cache t (.ends (.error e))⟩ (.failed t e)
      ⟨w, frames, .code (holding e.owned + t.caller)⟩

/-- A step that was taken. -/
structure Turn where
  act : Act
  before : World
  after : World

/-- The deeds of a step. What the cache does by itself is none. -/
def Turn.deeds (t : Turn) : List Deed :=
  match t.act with
  | .changed => [.changed t.before t.after]
  | .invalidated v => [.invalidated v t.before t.after]
  | .refused l e => [.called l t.before, .returned l (.error e) t.after]
  | .hit l p => [.called l t.before, .returned l (.ok p) t.after]
  | .missed l => [.called l t.before]
  | .worked => []
  | .asked v m => [.asked v m t.after]
  | .replied reply => [.replied reply t.after]
  | .built b => [.returned b.lookup (.ok b.record.payload) t.after]
  | .failed s e => [.returned s.lookup (.error e) t.after]

/-- The deeds of these steps. -/
def deeds (ts : List Turn) : List Deed := ts.flatMap Turn.deeds

theorem deeds_append (ts us : List Turn) : deeds (ts ++ us) = deeds ts ++ deeds us :=
  List.flatMap_append

/-- The steps from one moment of a play to another, before which `n` steps had been taken. -/
inductive Steps (host : Host) (n : Nat) (x : Stage) : List Turn → Stage → Prop where
  | refl : Steps host n x [] x
  | snoc {ts : List Turn} {y z : Stage} {a : Act} : Steps host n x ts y →
    Step host (n + ts.length) y a z → Steps host n x (ts ++ [⟨a, y.world, z.world⟩]) z

/-- A play that began in `w₀`, with host code that held `f₀` and no build under way. -/
def Play (host : Host) (w₀ : World) (f₀ : Holding) : List Turn → Stage → Prop :=
  Steps host 0 ⟨w₀, [], .code f₀⟩

end MetaCache
