import MetaCache.Descriptor.Compile
import MetaCache.Script.Result
/-!
# Steps on values and variables

What a script does with values: it names them, looks at them, compares them, calls them.

* `countsOf`, `textsOf`, `areSame`: aspects of what variables hold.
* `callValue`: a call of code.
-/

namespace MetaCache.Script

variable (host : Host) (args : List Value)

/-- Binds a variable to the value of an expression. -/
def assign (name : String) (e : Expr) : Action Answer := do
  keepValue (some name) (← e.eval args)

/-- Removes a variable. -/
def dropVariable (name : String) : Action Answer :=
  return .flag (← modifyGet (World.unbind name))

/-- Compares two values. -/
def compareValues (a b : Expr) : Action Answer :=
  withValue args a fun x => withValue args b fun y => return .flag (x.same y)

/-- The number of owners of what a variable holds; of a weak reference or handle, whether there are
any. -/
def countsOf (name : String) : Action Answer := do
  let s := (← get).store
  match ← Action.binding name with
  | .value (.ref c) => return .counts (s.strongCount c) (s.weakCount c)
  | .value (.weak c) => return .dead (!s.alive c)
  | .descriptor p | .shadow p => return .counts (s.payloadCount p) (s.weakPayloadCount p)
  | .weakHandle p => return .alive (s.payloads.contains p)
  | .key k => return .number (s.nameCount k.name.id)
  | _ => Action.refuse ("nothing counted in " ++ name)

/-- Whether a weak reference points at the cell of a strong one. -/
def pointsTo (weak target : Expr) : Action Answer :=
  withValue args weak fun v => withCell args target fun c =>
    match v with
    | .weak d => return .flag (d == c)
    | _ => Action.refuse "no weak reference"

/-- Keeps a weak handle on the structure in a variable. -/
def downgrade (name target : String) : Action Answer := do
  match ← Action.binding name with
  | .descriptor p | .shadow p =>
    Action.retain [.weakPayload p]
    modify (World.bind target (.weakHandle p))
    return .nothing
  | _ => Action.refuse ("no compiled structure in " ++ name)

/-- What a variable holds, as text inside messages. -/
def textsOf (name : String) : Action Answer := do
  let s := (← get).store
  match ← Action.binding name with
  | .value v => return .text (s.valueText v)
  | .key k => return .keyTexts k.shown k.text
  | .descriptor p | .shadow p =>
    match ← Action.payload p with
    | .descriptor d => return .text (d.shown s)
    | .shadow sh => return .text (sh.shown s)
    | .tag _ => Action.refuse ("no compiled structure in " ++ name)
  | _ => Action.refuse ("nothing shown in " ++ name)

/-- Whether two variables hold the same structure, or strong references to the same cell. -/
def areSame (a b : String) : Action Answer := do
  match ← Action.binding a, ← Action.binding b with
  | .value (.ref c), .value (.ref d) => return .flag (c == d)
  | .descriptor p, .descriptor q => return .flag (p == q)
  | .shadow p, .shadow q => return .flag (p == q)
  | _, _ => return .flag false

/-- Calls code with arguments. -/
def callValue (code : Expr) (arguments : List Expr) (name : Option String) : Action Answer :=
  withValue args code fun f => withValues args arguments fun vs => do
    match f.strong?, ← Action.readStore (·.code? f) with
    | some c, some _ => answeringHost (host.callCode c vs) (keepValue name)
    | _, _ => return .notCode

/-- Makes an empty container. -/
def produce (kind : ContainerKind) (name : Option String) : Action Answer := do
  keepDump name (← Action.withStore kind.produce)

end MetaCache.Script
