import MetaCache.Descriptor.Compile
/-!
# Compiling instance metaobjects

An instance metaobject is compiled by asking for its class name, resolving the class, reading the
generation, asking once for the attributes and compiling these in order. If one of them fails, what
was compiled before it is given back.

* `Shadow.resolve`, `Shadow.fill`: the protocol, up to the generation and from there on.
* `Shadow.compile`: the two together.
-/

namespace MetaCache.Shadow

variable (host : Host)

/-- Compiles attributes in order and appends them to a shadow. -/
def compileAttributes : Shadow → List Value → Build Shadow
  | s, [] => return s
  | s, attr :: rest => do
    let d ← Build.guarding (attr.owned ++ ownedByAll rest ++ [.held (.shadow s)])
      (Descriptor.compile host attr)
    Action.release attr.owned
    compileAttributes (s.append d) rest

/-- The shadow of the class of that name, still without attributes: it holds the class, and the
generation is read. -/
def ofClassName (className : String) : Build Shadow := do
  match host.class? (← get) className with
  | none => throw (.mismatch (.unknownClass className))
  | some cls =>
    Action.retain [.cell cls]
    let w ← get
    return {
      cls, className, layout := w.cache.config.layout, generation := host.generation w cls }

/-- Asks an instance metaobject for the name of its class and resolves it. -/
def resolve (inst : Value) : Build Shadow := do
  let w ← get
  let base := w.cache.config.instanceBaseClass
  if host.derivesFrom w inst base then
    let v ← host.askOne inst InstanceQuery.className.method
    match v.text? with
    | some className => ofClassName host className
    | none => Build.failMismatch v .classNameNotText
  else
    let got ← Action.readStore (·.valueText inst)
    throw (.mismatch (.notInstanceMeta got base))

/-- Asks an instance metaobject once for its attributes and compiles them into a shadow that has
none yet. -/
def fill (inst : Value) (empty : Shadow) : Build Shadow := do
  let attrs ← Build.guarding [.held (.shadow empty)]
    (host.askList inst InstanceQuery.allAttributes.method)
  let s ← compileAttributes host empty attrs
  Action.note (.compiledShadow s.className s.descriptors.length s.generation s.layout)
  return s

/-- Compiles an instance metaobject. -/
def compile (inst : Value) : Build Shadow := do
  let empty ← resolve host inst
  fill host inst empty

end MetaCache.Shadow
