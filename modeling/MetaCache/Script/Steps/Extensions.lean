import MetaCache.Script.Result
/-!
# Steps on extension slots

A script looks into extension slots, and puts records of its own into them.

* `askExtension`, `askRecord`: what a slot or a variable holds.
* `exchange`: what is put into a slot for what was in it.
* `attach`, `detach`: changes of a slot, which hand the previous record over.
-/

namespace MetaCache.Script

variable (args : List Value)

/-- Tells what is in the extension slot of a cell. -/
def askExtension (target : Expr) : Action Answer :=
  withCell args target fun c => do
    let w ← get
    let r := w.store.extension? c
    return .extension r.isSome (r.map w.viewCopy)

/-- Puts a record into an extension slot, or empties the slot, and answers the record that was in
it. -/
def exchange (c : CellId) (r? : Option Record) (name : Option String) : Action Answer := do
  let previous ← Action.readStore (·.extension? c)
  Action.onStore (·.setExtension c r?)
  keepRecord name previous

/-- Puts a payload, whose handle is taken over, into an extension slot under a generation of a
governor. -/
def attach (target : Expr) (payload : Action PayloadId) (generation : Nat) (governor : Expr)
    (name : Option String) : Action Answer :=
  withCell args target fun c => withCell args governor fun g => do
    let p ← payload
    Action.retain [.weakCell g]
    exchange c (some { payload := p, generation, governor := g }) name

/-- A new tag. -/
def newTag (tag : String) : Action PayloadId :=
  Action.withStore (·.newPayload (.tag tag))

/-- One more handle on the structure in a variable. -/
def sharedIn (var : String) : Action PayloadId := do
  match ← Action.binding var with
  | .descriptor p | .shadow p =>
    Action.retain [.payload p]
    return p
  | _ => Action.refuse ("no compiled structure in " ++ var)

/-- Empties an extension slot. -/
def detach (target : Expr) (name : Option String) : Action Answer :=
  withCell args target fun c => exchange c none name

/-- Tells what is in the record of a variable. -/
def askRecord (var : String) : Action Answer := do
  match ← Action.binding var with
  | .record r => return .record (some (← look (·.viewCopy r)))
  | _ => Action.refuse ("no record in " ++ var)

end MetaCache.Script
