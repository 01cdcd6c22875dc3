import MetaCache.Host
/-!
# Compiling attributes

An attribute metaobject is compiled by asking it, in this order, for its one slot, its init-arg, its
default or else its builder, and its initializer. Each answer may come from host code, which may do
anything in between. What has been obtained is given back as soon as a later query fails, so there
is never half a descriptor.

* `Descriptor.compile`: the protocol.
* `Descriptor.initialValue`: the value of an attribute that was given none.
-/

namespace MetaCache

/-- Fails because `v` is of no use; its text is taken before it is given back. -/
def Build.failMismatch {α : Type} (v : Value) (m : String → Mismatch) : Build α := do
  let got ← Action.readStore (·.valueText v)
  Build.failReleasing v.owned (.mismatch (m got))

/-- An empty container. -/
def ContainerKind.empty : ContainerKind → Referent
  | scalar => .scalar .undef
  | array => .array []
  | hash => .hash []

/-- A fresh, empty container. -/
def ContainerKind.produce (kind : ContainerKind) (s : Store) : Value × Store :=
  let (c, s) := s.newCell kind.empty
  (.ref c, s)

namespace Descriptor

variable (host : Host)

/-- Asks for the slot. There must be exactly one, and its name must be text. -/
def readSlot (attr : Value) : Build Key := do
  match ← host.askList attr AttributeQuery.slots.method with
  | [v] =>
    match v.text? with
    | some name => modifyGet (World.key name)
    | none => Build.failMismatch v .slotNotText
  | reply => Build.failReleasing (ownedByAll reply) (.slotCount reply.length)

/-- Asks for the init-arg. An undefined one is none. -/
def readInitArg (attr : Value) : Build (Option Key) := do
  if ← host.askFlag attr AttributeQuery.hasInitArg.method then
    let v ← host.askOne attr AttributeQuery.initArg.method
    if ← Action.readStore (·.isDefined v) then
      match v.text? with
      | some name => return some (← modifyGet (World.key name))
      | none => Build.failMismatch v .initArgNotText
    else
      Action.release v.owned
      return none
  else
    return none

/-- What a default value becomes: code that the classifier recognises is replaced by the kind of
container it produces, other code and plain values are captured, other references are refused. -/
def captureDefault (v : Value) : Build DefaultStrategy := do
  match v with
  | .ref _ =>
    match ← Action.readStore (·.code? v) with
    | none => Build.failMismatch v .defaultNotCallable
    | some code =>
      match (← get).cache.classifier code with
      | some kind =>
        Action.release v.owned
        return .container kind
      | none => return .value v
  | _ => return .value v

/-- Asks for the default, and for the builder if there is none. -/
def readDefault (attr : Value) : Build DefaultStrategy := do
  if ← host.askFlag attr AttributeQuery.hasDefault.method then
    let v ← host.askOne attr AttributeQuery.default.method
    captureDefault v
  else if ← host.askFlag attr AttributeQuery.hasBuilder.method then
    let v ← host.askOne attr AttributeQuery.builder.method
    match v.text? with
    | some name => return .builder name
    | none => Build.failMismatch v .builderNotText
  else
    return .none

/-- Asks for the initializer, which must be code. -/
def readInitializer (attr : Value) : Build (Option CellId) := do
  if ← host.askFlag attr AttributeQuery.hasInitializer.method then
    let v ← host.askOne attr AttributeQuery.initializer.method
    match v, ← Action.readStore (·.code? v) with
    | .ref c, some _ => return some c
    | _, _ => Build.failMismatch v .initializerNotCallable
  else
    return none

/-- Compiles an attribute metaobject. -/
def compile (attr : Value) : Build Descriptor := do
  match attr with
  | .ref origin =>
    let slot ← readSlot host attr
    let initArg ← Build.guarding slot.owned (readInitArg host attr)
    let default ←
      Build.guarding (ownedByKey? initArg ++ slot.owned) (readDefault host attr)
    let initializer ←
      Build.guarding (default.owned ++ ownedByKey? initArg ++ slot.owned)
        (readInitializer host attr)
    Action.retain [.weakCell origin]
    let d : Descriptor := { slot, initArg, default, initializer, origin }
    Action.note (.compiledDescriptor d.slot d.default.kind d.flags)
    return d
  | _ =>
    let got ← Action.readStore (·.valueText attr)
    throw (.mismatch (.attributeNotReference got))

/-- The value that an attribute without a given value gets in an instance, if it has a default: what
the captured code or the builder answers for the instance, a copy of the captured value, or a fresh
container. -/
def initialValue (d : Descriptor) (inst : Value) : Build (Option Value) := do
  match d.default with
  | .none => return none
  | .value v =>
    match v.strong?, ← Action.readStore (·.code? v) with
    | some c, some _ => return some (← Build.ofHost (host.callCode c [inst]))
    | _, _ =>
      Action.retain v.owned
      return some v
  | .builder method => return some (← host.askOne inst method)
  | .container kind => return some (← Action.withStore kind.produce)

end Descriptor

end MetaCache
