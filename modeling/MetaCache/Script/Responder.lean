import MetaCache.Script.Eval
/-!
# The host of a script

Metaobjects answer methods by their behaviours, instance metaobjects also tell their class and its
attributes, and every object has the methods of the registry. Host code is run by an interpreter
that is a parameter here.

* `Interpreter`: what running a routine answers.
* `scriptedHost`: the host that answers through an interpreter.
-/

namespace MetaCache.Script

/-- Runs a routine in the call that follows so many earlier ones, with the given arguments, which
stay with the caller. -/
abbrev Interpreter := Routine → Nat → List Value → ExceptT HostError Action (List Value)

/-- Fails as host code does. -/
def hostFail {α : Type} (message : String) : ExceptT HostError Action α :=
  throw { message }

/-- The message for a call on something that is no reference. -/
def notReferenceMessage (method : String) : String :=
  "Can't call method \"" ++ method ++ "\" on a non-reference"

/-- The message for a class that is not there. -/
def noClassMessage (name : String) : String :=
  "Can't locate class \"" ++ name ++ "\""

/-- The message for a method that an object does not have; `cell` is the text of the object. -/
def noMethodMessage (method cell : String) : String :=
  "Can't locate object method \"" ++ method ++ "\" via " ++ cell

variable (interpret : Interpreter)

/-- Calls the code in a cell: the first value of its reply, or the undefined value. -/
def callCode (c : CellId) (args : List Value) : ExceptT HostError Action Value := do
  match ← Action.readStore (·.code? (.ref c)) with
  | none => Action.refuse "a call of no code"
  | some code =>
    Action.onStore (·.setReferent c (.code { code with runs := code.runs + 1 }))
    match ← interpret code.routine code.runs args with
    | [] => return .undef
    | v :: rest =>
      Action.release (ownedByAll rest)
      return v

/-- What a behaviour of the object in a cell answers. -/
def runBehavior (c : CellId) (method : String) :
    Behavior → ExceptT HostError Action (List Value)
  | .reply vs => do
    Action.retain (ownedByAll vs)
    return vs
  | .fail message => hostFail message
  | .hook routine runs => do
    modify (World.setBehavior c method (.hook routine (runs + 1)))
    interpret routine runs []

/-- The attributes of the class of that name. -/
def classAttributes (name : String) : ExceptT HostError Action (List Value) := do
  match (← get).class? name with
  | none => hostFail (noClassMessage name)
  | some c =>
    let attrs := (((← get).objectIn? c).map Object.attributes).getD []
    Action.retain (ownedByAll attrs)
    return attrs

/-- What a method of the registry answers for an invocant. The method lives until it has
answered. -/
def callRegistered (invocant : CellId) (method : String) :
    ExceptT HostError Action (List Value) := do
  match (← get).registry.methods.lookup method with
  | none =>
    let cell ← Action.readStore (·.cellText invocant)
    hostFail (noMethodMessage method cell)
  | some c =>
    Action.retain [.cell c]
    let v ← tryCatch (callCode interpret c [.ref invocant]) fun e => do
      Action.release [.cell c]
      throw e
    Action.release [.cell c]
    return [v]

/-- Calls a method of a value. -/
def callMethod (invocant : Value) (method : String) : ExceptT HostError Action (List Value) := do
  modify World.countCall
  match invocant with
  | .ref c =>
    let o := (← get).objectIn? c
    match o.bind fun o => o.behaviors.lookup method, o with
    | some b, _ => runBehavior interpret c method b
    | none, some (.instanceMeta name _) =>
      if method = InstanceQuery.className.method then return [.str name]
      else if method = InstanceQuery.allAttributes.method then classAttributes name
      else callRegistered interpret c method
    | _, _ => callRegistered interpret c method
  | _ => hostFail (notReferenceMessage method)

/-- The host that runs its code through an interpreter. -/
def scriptedHost : Host where
  callMethod := callMethod interpret
  callCode := callCode interpret
  derivesFrom w v name := (w.store.object? v).any (·.derivesFrom name)
  class? := World.class?
  generation := World.generation

end MetaCache.Script
