import MetaCache.World
/-!
# Variables

A script keeps what it has obtained in variables. A variable owns its content: binding it anew gives
the old content back, after the new one is in place.

* `Session.find?`, `World.bind`, `World.unbind`: the operations.
* `World.holders`: the variables that hold a strong reference to a cell.
-/

namespace MetaCache

namespace Script

/-- The variables with `name` bound to `b`, in ascending order of name. -/
def insertBinding (name : String) (b : Binding) :
    List (String × Binding) → List (String × Binding)
  | [] => [(name, b)]
  | (n, old) :: rest =>
    if n = name then (n, b) :: rest
    else if name < n then (name, b) :: (n, old) :: rest
    else (n, old) :: insertBinding name b rest

/-- The content of a variable. -/
def Session.find? (s : Session) (name : String) : Option Binding :=
  s.vars.lookup name

/-- The session with `name` bound to `b`. -/
def Session.put (s : Session) (name : String) (b : Binding) : Session :=
  { s with vars := insertBinding name b s.vars }

/-- The session without the variable. -/
def Session.erase (s : Session) (name : String) : Session :=
  { s with vars := s.vars.filter fun v => v.1 != name }

theorem lookup_insertBinding (name n : String) (b : Binding) (vs : List (String × Binding)) :
    (insertBinding name b vs).lookup n = if n = name then some b else vs.lookup n := by
  induction vs with
  | nil =>
    by_cases h : n = name
    · simp [insertBinding, h]
    · simp [insertBinding, h, List.lookup_cons, beq_false_of_ne h]
  | cons v rest ih =>
    obtain ⟨k, old⟩ := v
    unfold insertBinding
    by_cases hk : k = name
    · subst hk
      by_cases h : n = k
      · simp [h]
      · simp [h, List.lookup_cons, beq_false_of_ne h]
    · rw [if_neg hk]
      by_cases hlt : name < k
      · rw [if_pos hlt]
        by_cases h : n = name
        · simp [h]
        · simp [h, List.lookup_cons, beq_false_of_ne h]
      · rw [if_neg hlt]
        by_cases h : n = k
        · subst h
          simp [hk]
        · simp [List.lookup_cons, beq_false_of_ne h, ih]

/-- What a variable holds after another one, or it itself, was bound. -/
theorem Session.find?_put (s : Session) (name n : String) (b : Binding) :
    (s.put name b).find? n = if n = name then some b else s.find? n :=
  lookup_insertBinding name n b s.vars

/-- Whether a binding is a strong reference to the cell. -/
def Binding.holds (c : CellId) : Binding → Bool
  | value (.ref d) => d == c
  | _ => false

end Script

open Script (Binding)

namespace World

/-- The variables that hold a strong reference to a cell, in order. -/
def holders (w : World) (c : CellId) : List String :=
  (w.session.vars.filter fun v => v.2.holds c).map Prod.fst

/-- Binds a variable; its old content is given back afterwards. -/
def bind (name : String) (b : Binding) (w : World) : World :=
  let old := w.session.find? name
  let w := { w with session := w.session.put name b }
  w.onStore (·.release ((old.map Binding.owned).getD []))

/-- Removes a variable and gives its content back; tells whether there was one. -/
def unbind (name : String) (w : World) : Bool × World :=
  match w.session.find? name with
  | none => (false, w)
  | some b =>
    (true, World.onStore (·.release b.owned) { w with session := w.session.erase name })

end World

namespace Action

/-- The content of a variable that must be bound. -/
def binding (name : String) : Action Binding := do
  match (← get).session.find? name with
  | some b => return b
  | none => refuse ("no variable " ++ name)

/-- The value in a variable. -/
def valueIn (name : String) : Action Value := do
  match ← binding name with
  | .value v => return v
  | _ => refuse ("no value in " ++ name)

/-- The key in a variable. -/
def keyIn (name : String) : Action Key := do
  match ← binding name with
  | .key k => return k
  | _ => refuse ("no key in " ++ name)

/-- The payload with that identity. -/
def payload (p : PayloadId) : Action Payload := do
  match ← readStore (·.payload? p) with
  | some content => return content
  | none => refuse "no such payload"

/-- The descriptor in a variable, with its handle. -/
def descriptorIn (name : String) : Action (PayloadId × Descriptor) := do
  match ← binding name with
  | .descriptor p =>
    match ← payload p with
    | .descriptor d => return (p, d)
    | _ => refuse ("no descriptor in " ++ name)
  | _ => refuse ("no descriptor in " ++ name)

/-- The shadow in a variable, with its handle. -/
def shadowIn (name : String) : Action (PayloadId × Shadow) := do
  match ← binding name with
  | .shadow p =>
    match ← payload p with
    | .shadow s => return (p, s)
    | _ => refuse ("no shadow in " ++ name)
  | _ => refuse ("no shadow in " ++ name)

/-- Keeps something in a variable, or gives it back if no variable is named. -/
def keep (name : Option String) (b : Binding) : Action Unit :=
  match name with
  | some n => modify (World.bind n b)
  | none => release b.owned

end Action

end MetaCache
