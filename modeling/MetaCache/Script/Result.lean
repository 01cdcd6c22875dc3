import MetaCache.Script.Responder
import MetaCache.Script.View
/-!
# Results of steps

A step answers with a view of its result, taken before the result is kept in a variable or given
back.

* `keepValue`, `keepKey`, `keepRecord`, `keepPayload`: results that a variable may keep.
* `answering`: the answer of an operation of the cache that may fail.
-/

namespace MetaCache

namespace Script

/-- What the world looks like under a view. -/
def look {α : Type} (f : World → α) : Action α :=
  return f (← get)

/-- Answers a value, and keeps it or gives it back. -/
def keepValue (name : Option String) (v : Value) : Action Answer := do
  let view ← look (·.view v)
  Action.keep name (.value v)
  return .value view

/-- Answers a value with its contents, and keeps it or gives it back. -/
def keepDump (name : Option String) (v : Value) : Action Answer := do
  let view ← look (·.dump 1 v)
  Action.keep name (.value v)
  return .dump view

/-- Answers the value of a slot, and keeps it or gives it back. -/
def keepSlotValue (name : Option String) (v : Option Value) : Action Answer := do
  match v with
  | none => return .slotValue none
  | some v =>
    let view ← look (·.view v)
    Action.keep name (.value v)
    return .slotValue (some view)

/-- Answers a key, and keeps it or gives it back. -/
def keepKey (name : Option String) (k : Key) : Action Answer := do
  Action.keep name (.key k)
  return .key k.view

/-- Answers the record that an extension slot held, and keeps it or gives it back. -/
def keepRecord (name : Option String) (r : Option Record) : Action Answer := do
  match r with
  | none => return .record none
  | some r =>
    let view ← look (·.viewOwnRecord r)
    Action.keep name (.record r)
    return .record (some view)

/-- Answers a compiled structure by its handle, and keeps the handle or gives it back. -/
def keepPayload (name : Option String) (p : PayloadId) : Action Answer := do
  match ← Action.payload p with
  | .descriptor d =>
    let view ← look (·.viewDescriptor d)
    Action.keep name (.descriptor p)
    return .descriptor view
  | .shadow s =>
    Action.keep name (.shadow p)
    return .shadow s.view
  | .tag _ => Action.refuse "no compiled structure"

/-- Answers a compiled structure that is not shared yet. -/
def keepCompiled (name : Option String) (p : Payload) : Action Answer := do
  keepPayload name (← Action.withStore (·.newPayload p))

/-- Answers an error of the cache and gives back what it carries. -/
def failed (e : Error) : Action Answer := do
  let answer ← look (·.viewError e)
  Action.release e.owned
  return answer

/-- Answers a failure of host code and gives back what it carries. -/
def hostFailed (e : HostError) : Action Answer := do
  let answer ← look (·.viewHostError e)
  Action.release e.thrown.owned
  return answer

/-- The answer of an operation that may fail: what `k` makes of its result, or the error. -/
def answering {α : Type} (x : Build α) (k : α → Action Answer) : Action Answer := do
  match ← x.run with
  | .ok a => k a
  | .error e => failed e

/-- The answer of an operation on the store that may fail. -/
def answeringStore {α : Type} (x : Store → Except Error α × Store) (k : α → Action Answer) :
    Action Answer := do
  match ← Action.withStore x with
  | .ok a => k a
  | .error e => failed e

/-- The answer of a call of host code. -/
def answeringHost {α : Type} (x : ExceptT HostError Action α) (k : α → Action Answer) :
    Action Answer := do
  match ← x.run with
  | .ok a => k a
  | .error e => hostFailed e

end Script

end MetaCache
