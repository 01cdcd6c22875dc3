import MetaCache.Script.Result
/-!
# Steps on the host

A script defines classes and methods, redefines and removes them, and changes the way metaobjects
answer.

* `defineClass`, `setAttributes`, `bumpClass`, `removeClass`: classes.
* `defineMethod`, `callMethodOf`, `setMethod`: methods.
-/

namespace MetaCache.Script

variable (host : Host) (args : List Value)

/-- Defines or redefines a class. -/
def defineClass (name : String) (attributes : List Expr) (target : Option String) :
    Action Answer := do
  let attrs ← Expr.evalAll args attributes
  let c ← modifyGet (World.defineClass name attrs)
  keepDump target (.ref c)

/-- Runs `k` on the cell of a class. -/
def withClass {α : Type} (e : Expr) (k : CellId → Action α) : Action α :=
  withCell args e fun c => do
    if ((← get).objectIn? c).any Object.isClass then k c else Action.refuse "no class"

/-- Gives a class one attribute more. -/
def pushAttribute (cls attr : Expr) : Action Answer :=
  withClass args cls fun c => do
    let v ← attr.eval args
    modify (World.pushAttribute c v)
    return .dump (← look (·.dump 1 (.ref c)))

/-- Gives a class other attributes. -/
def setAttributes (cls : Expr) (attributes : List Expr) : Action Answer :=
  withClass args cls fun c => do
    let vs ← Expr.evalAll args attributes
    modify (World.setAttributes c vs)
    return .dump (← look (·.dump 1 (.ref c)))

/-- Counts the generation of a class up. -/
def bumpClass (cls : Expr) : Action Answer :=
  withClass args cls fun c => return .number (← modifyGet (World.bumpClass c))

/-- Counts the generation of the class of that name up, if there is one. -/
def bump (name : String) : Action Answer := do
  match (← get).class? name with
  | none => return .nothing
  | some c => return .number (← modifyGet (World.bumpClass c))

/-- Removes the class of that name. -/
def removeClass (name : String) : Action Answer := do
  match ← modifyGet (World.removeClass name) with
  | none => return .reference none
  | some c =>
    let view ← look (·.viewCell c)
    Action.release [.cell c]
    return .reference (some view)

/-- Looks a class up. -/
def resolveClass (name : String) : Action Answer := do
  let w ← get
  return .reference ((host.class? w name).map w.viewCell)

/-- The generation of a class. -/
def classGeneration (cls : Expr) : Action Answer :=
  withCell args cls fun c => return .number (host.generation (← get) c)

/-- Whether a value derives from a class. -/
def derivedFrom (e : Expr) (className : String) : Action Answer :=
  withValue args e fun v => return .flag (host.derivesFrom (← get) v className)

/-- Defines a method of every object. -/
def defineMethod (name : String) (routine : Routine) : Action Answer := do
  let c ← Action.withStore (·.newCell (.code { name := routine.name, routine }))
  modify (World.defineMethod name c)
  return .nothing

/-- Calls a method of a value. -/
def callMethodOf (invocant : Expr) (method : String) : Action Answer :=
  withValue args invocant fun v =>
    answeringHost (host.callMethod v method) fun reply => do
      let views ← look fun w => reply.map w.view
      Action.release (ownedByAll reply)
      return .values views

/-- Lets a metaobject answer a method in another way. -/
def setMethod (target : Expr) (method : String) (behavior : BehaviorExpr) : Action Answer :=
  withCell args target fun c => do
    let b ← behavior.eval args
    if ((← get).objectIn? c).any Object.hasBehaviors then
      modify (World.setBehavior c method b)
      return .nothing
    else Action.refuse "no metaobject with methods"

end MetaCache.Script
