import MetaCache.Host
import MetaCache.Host.Registry
import MetaCache.Script.Variable
/-!
# Expressions

The value of an expression belongs to whoever evaluates it: a copy of a stored value is a share of
its own, and a new cell has the one owner. Expressions are evaluated from left to right.

* `Expr.eval`, `Expr.evalAll`: values of expressions.
* `BehaviorExpr.eval`: behaviours of metaobjects.
* `withValue`, `withValues`: values that live as long as a computation.
-/

namespace MetaCache.Script

/-- A copy of a value, with a share of its own. -/
def copy (v : Value) : Action Value := do
  Action.retain v.owned
  return v

/-- A new cell. -/
def allocate (r : Referent) : Action Value :=
  Action.withStore fun s => ((.ref (s.newCell r).1), (s.newCell r).2)

/-- A new key that shares its name with no other. -/
def freshKey (name : String) : Action Key := do
  let hash := (← get).cache.nameHash name
  let shared ← Action.withStore (·.newName name)
  return ⟨shared, hash⟩

/-- The value of a flag. -/
def flagValue (b : Bool) : Value := .int (if b then 1 else 0)

/-- Behaviours with another one for a method; the one replaced is given back. -/
def respond (method : String) (b : Behavior) (bs : Behaviors) : Action Behaviors := do
  Action.release (bs.ownedBy method)
  return putNamed method b bs

/-- Behaviours that announce and answer something an attribute has, if it has it. -/
def announce (has what : AttributeQuery) (v : Option Value) (bs : Behaviors) : Action Behaviors :=
  match v with
  | none => return bs
  | some v => do
    let bs ← respond has.method (.reply [flagValue true]) bs
    respond what.method (.reply [v]) bs

/-- The behaviours of an attribute that has a slot and nothing else. -/
def bareAttribute (slot : String) : Behaviors :=
  (AttributeQuery.slots.method, .reply [.str slot]) ::
    [AttributeQuery.hasInitArg, .hasDefault, .hasBuilder, .hasInitializer].map fun q =>
      (q.method, .reply [flagValue false])

mutual

/-- The value of an expression. -/
def Expr.eval (args : List Value) : Expr → Action Value
  | .undef => return .undef
  | .int n => return .int n
  | .num x => return .num x
  | .str s => return .str s
  | .repeated s n => return .str (String.join (List.replicate n s))
  | .var name => do copy (← Action.valueIn name)
  | .take name => do
    let v ← Action.valueIn name
    modify fun w => { w with session := w.session.erase name }
    return v
  | .weak e => do
    match ← e.eval args with
    | .ref c =>
      Action.retain [.weakCell c]
      Action.release [.cell c]
      return .weak c
    | _ => Action.refuse "a weak reference to no cell"
  | .upgraded e => do
    let v ← e.eval args
    Action.withStore (·.upgrade v)
  | .arg i => copy (args[i]?.getD .undef)
  | .argCount => return .int args.length
  | .classNamed name => do
    match (← get).class? name with
    | some c => copy (.ref c)
    | none => Action.refuse ("no class " ++ name)
  | .hash entries => do allocate (.hash (← evalEntries args entries))
  | .array items => do allocate (.array (← Expr.evalAll args items))
  | .scalar item => do allocate (.scalar (← item.eval args))
  | .code routine => allocate (.code { name := routine.name, routine })
  | .object className isa => allocate (.object (.plain className isa))
  | .attributeMeta slot slots initArg default builder initializer answers => do
    let bs := bareAttribute slot
    let bs ← match slots with
      | none => pure bs
      | some names => respond AttributeQuery.slots.method (.reply (names.map .str)) bs
    let bs ← announce .hasInitArg .initArg (← evalOptional args initArg) bs
    let bs ← announce .hasDefault .default (← evalOptional args default) bs
    let bs ← announce .hasBuilder .builder (builder.map .str) bs
    let bs ← announce .hasInitializer .initializer (← evalOptional args initializer) bs
    allocate (.object (.attributeMeta (← evalAnswers args bs answers)))
  | .instanceMeta className answers => do
    allocate (.object (.instanceMeta className (← evalAnswers args [] answers)))

/-- The values of expressions, in order. -/
def Expr.evalAll (args : List Value) : List Expr → Action (List Value)
  | [] => return []
  | e :: rest => do
    let v ← e.eval args
    return v :: (← Expr.evalAll args rest)

/-- The value of an expression that may be missing. -/
def evalOptional (args : List Value) : Option Expr → Action (Option Value)
  | none => return none
  | some e => return some (← e.eval args)

/-- The entries of a hash, each under a key of its own. -/
def evalEntries (args : List Value) : List (String × Expr) → Action (List (Key × Value))
  | [] => return []
  | (name, e) :: rest => do
    let v ← e.eval args
    let key ← freshKey name
    return (key, v) :: (← evalEntries args rest)

/-- A behaviour of a metaobject; its values are taken now, host code runs when it is asked. -/
def BehaviorExpr.eval (args : List Value) : BehaviorExpr → Action Behavior
  | .reply values => return .reply (← Expr.evalAll args values)
  | .fail message => return .fail message
  | .hook routine => return .hook routine 0

/-- Behaviours with others added, in order. -/
def evalAnswers (args : List Value) (bs : Behaviors) :
    List (String × BehaviorExpr) → Action Behaviors
  | [] => return bs
  | (method, b) :: rest => do
    let b ← b.eval args
    evalAnswers args (← respond method b bs) rest

end

/-- Runs `k` on the value of `e`, which lives until then. -/
def withValue {α : Type} (args : List Value) (e : Expr) (k : Value → Action α) : Action α := do
  let v ← e.eval args
  let a ← k v
  Action.release v.owned
  return a

/-- Runs `k` on the values of `es`, which live until then. -/
def withValues {α : Type} (args : List Value) (es : List Expr) (k : List Value → Action α) :
    Action α := do
  let vs ← Expr.evalAll args es
  let a ← k vs
  Action.release (ownedByAll vs)
  return a

/-- Runs `k` on the cell that the value of `e` refers to, strongly. -/
def withCell {α : Type} (args : List Value) (e : Expr) (k : CellId → Action α) : Action α :=
  withValue args e fun v =>
    match v with
    | .ref c => k c
    | _ => Action.refuse "no strong reference"

end MetaCache.Script
