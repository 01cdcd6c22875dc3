import MetaCache.Lookup
import MetaCache.Script.Result
/-!
# Steps on descriptors and shadows

A script compiles metaobjects, looks compiled structures up in the cache, and asks what is in them.

* `compileDescriptor`, `compileShadow`: compilation without the cache.
* `lookUpDescriptor`, `lookUpShadow`, `invalidateAt`: the cache.
* `askInitialValue`, `askShadow`, `search`: what compiled structures tell.
-/

namespace MetaCache.Script

variable (host : Host) (args : List Value)

/-- Compiles an attribute metaobject. -/
def compileDescriptor (attr : Expr) (target : Option String) : Action Answer :=
  withValue args attr fun v =>
    answering (Descriptor.compile host v) fun d => keepCompiled target (.descriptor d)

/-- Looks the descriptor of an attribute metaobject up. -/
def lookUpDescriptor (attr cls : Expr) (target : Option String) : Action Answer :=
  withValue args attr fun v => withCell args cls fun c =>
    answering (descriptorFor host v c) (keepPayload target)

/-- Tells what is in a descriptor. -/
def askDescriptor (var : String) : Action Answer := do
  let (_, d) ← Action.descriptorIn var
  return .descriptor (← look (·.viewDescriptor d))

/-- The descriptor that an expression means, with the handle that keeps it. -/
def findDescriptor : DescriptorExpr → Action (PayloadId × Descriptor)
  | .inVariable var => Action.descriptorIn var
  | .ofShadow var slot => do
    let (p, s) ← Action.shadowIn var
    match s.find? (← get).cache.nameHash slot with
    | some d => return (p, d)
    | none => Action.refuse ("no slot " ++ slot)

/-- Asks for the value that an instance gets for an attribute without one. The instance and the
descriptor are given back first. The value is kept before it is shown, so the view names the
variable too. -/
def askInitialValue (e : DescriptorExpr) (inst : Expr) (target : Option String) :
    Action Answer := do
  let (p, d) ← findDescriptor e
  Action.retain [.payload p]
  let result ← withValue args inst fun v => (Descriptor.initialValue host d v).run
  Action.release [.payload p]
  match result with
  | .error e => failed e
  | .ok none => return .slotValue none
  | .ok (some v) =>
    Action.retain v.owned
    Action.keep target (.value v)
    let view ← look (·.view v)
    Action.release v.owned
    return .slotValue (some view)

/-- Compiles an instance metaobject. -/
def compileShadow (inst : Expr) (target : Option String) : Action Answer :=
  withValue args inst fun v =>
    answering (Shadow.compile host v) fun s => keepCompiled target (.shadow s)

/-- Looks the shadow of an instance metaobject up. -/
def lookUpShadow (inst : Expr) (target : Option String) : Action Answer :=
  withValue args inst fun v => answering (shadowFor host v) (keepPayload target)

/-- Makes a shadow without descriptors. -/
def makeShadow (className : String) (cls : Expr) (generation : Nat) (target : Option String) :
    Action Answer :=
  withCell args cls fun c => do
    Action.retain [.cell c]
    keepCompiled target (.shadow { cls := c, className, layout := .hash, generation })

/-- Moves the descriptor in a variable, which has no other owner, to the end of the shadow in a
variable. -/
def appendDescriptor (shadow descriptor : String) : Action Answer := do
  let (p, s) ← Action.shadowIn shadow
  let (q, d) ← Action.descriptorIn descriptor
  let store := (← get).store
  if store.payloadCount p = 1 ∧ store.payloadCount q = 1 then
    modify fun w => { w with session := w.session.erase descriptor }
    Action.onStore fun st => (st.takePayload q).setPayload p (.shadow (s.append d))
    return .shadow (s.append d).view
  else Action.refuse "a structure is shared"

/-- Tells what is in a shadow. -/
def askShadow (var : String) : Action Answer := do
  let (_, s) ← Action.shadowIn var
  return .shadowInfo (← look (·.viewShadowInfo s))

/-- Answers a search in a shadow. -/
def answerSearch (position : Option Nat) (d : Option Descriptor) : Action Answer := do
  let w ← get
  return .found position (d.map w.viewDescriptor)

/-- Searches a shadow for a slot. -/
def search (var name : String) : Action Answer := do
  let (_, s) ← Action.shadowIn var
  let hash := (← get).cache.nameHash
  answerSearch (s.index? hash name) (s.find? hash name)

/-- Searches a shadow for an init-arg. -/
def searchInitArg (var name : String) : Action Answer := do
  let (_, s) ← Action.shadowIn var
  let hash := (← get).cache.nameHash
  answerSearch (s.initArgIndex? hash name) (s.findInitArg? hash name)

/-- Discards what the cache keeps in the extension slot of a value's cell. -/
def invalidateAt (target : Expr) : Action Answer :=
  withValue args target fun v => return .flag (← modifyGet (World.invalidate v))

end MetaCache.Script
