import MetaCache.Lookup
import MetaCache.Proofs.Compile.Ledger
/-!
# What compiling asks

Compiling a metaobject is a dialogue: it asks its host, one question after another, and what it asks
next depends on the answers. The dialogue is written down here without the shares that are taken and
given back meanwhile. It leads to the structure that is compiled, with names that belong to no key
table.

* `Inquiry`: the questions.
* `Protocol`: a dialogue, with `Protocol.run` for its result and `Protocol.asked` for the questions
  that it comes to, given the answers.
* `Protocol.run_congr`: the result depends on the answers to these questions alone.
* `Protocol.descriptor`, `Protocol.shadow`: the dialogues of the two compilations.
-/

namespace MetaCache

/-! ## Dialogues -/

/-- A question. -/
inductive Inquiry where
  | call (invocant : Value) (method : Introspection)
  | derives (v : Value) (base : String)
  | named (name : String)
  | generation (cls : CellId)
  /-- Whether a value is code, and what the classifier says of it. -/
  | callable (v : Value)
  | text (v : Value)
deriving DecidableEq

/-- The answers to a question. -/
abbrev Inquiry.Answer : Inquiry → Type
  | call .. => Except HostError (List Value)
  | derives .. => Bool
  | named _ => Option CellId
  | generation _ => Nat
  | callable _ => Option (Option ContainerKind)
  | text _ => String

/-- An answer to every question, or the reason why there is none. -/
abbrev View := (i : Inquiry) → Except Halt i.Answer

/-- A dialogue that comes to a result or fails with an error. -/
inductive Protocol (α : Type) : Type where
  | done (a : α)
  | fail (e : Error)
  | ask (i : Inquiry) (next : i.Answer → Protocol α)

namespace Protocol

variable {α β : Type}

/-- One dialogue after another. -/
def bind : Protocol α → (α → Protocol β) → Protocol β
  | done a, f => f a
  | fail e, _ => fail e
  | ask i next, f => ask i fun a => (next a).bind f

instance : Monad Protocol where
  pure := done
  bind := bind

theorem bind_done (p : Protocol α) : (p >>= fun a => done a) = p := by
  induction p with
  | done a => rfl
  | fail e => rfl
  | ask i next ih => exact congrArg (ask i) (funext ih)

/-- The result. -/
def run (V : View) : Protocol α → Except Halt (Except Error α)
  | done a => .ok (.ok a)
  | fail e => .ok (.error e)
  | ask i next =>
    match V i with
    | .error h => .error h
    | .ok a => (next a).run V

/-- The questions asked, in order. -/
def asked (V : View) : Protocol α → List Inquiry
  | done _ | fail _ => []
  | ask i next =>
    i :: match V i with
      | .error _ => []
      | .ok a => (next a).asked V

variable {V V' : View}

theorem run_ask {i : Inquiry} {next : i.Answer → Protocol α} {a : i.Answer} (h : V i = .ok a) :
    (ask i next).run V = (next a).run V := by
  rw [run, h]

theorem run_bind (p : Protocol α) (f : α → Protocol β) :
    (p >>= f).run V = match p.run V with
      | .error h => .error h
      | .ok (.error e) => .ok (.error e)
      | .ok (.ok a) => (f a).run V := by
  induction p with
  | done a => rfl
  | fail e => rfl
  | ask i next ih =>
    show (ask i fun a => (next a).bind f).run V = _
    rw [run, run]
    cases V i with
    | error h => rfl
    | ok a => exact ih a

theorem run_ask_eq_ok {i : Inquiry} {next : i.Answer → Protocol β} {b : β}
    (h : (ask i next).run V = .ok (.ok b)) :
    ∃ a, V i = .ok a ∧ (next a).run V = .ok (.ok b) := by
  rw [run] at h
  cases hv : V i with
  | error e => rw [hv] at h; cases h
  | ok a =>
    rw [hv] at h
    exact ⟨a, rfl, h⟩

theorem run_bind_eq_ok {p : Protocol α} {f : α → Protocol β} {b : β}
    (h : (p >>= f).run V = .ok (.ok b)) :
    ∃ a, p.run V = .ok (.ok a) ∧ (f a).run V = .ok (.ok b) := by
  rw [run_bind] at h
  cases hp : p.run V with
  | error e => rw [hp] at h; cases h
  | ok r =>
    rw [hp] at h
    cases r with
    | error e => cases h
    | ok a => exact ⟨a, rfl, h⟩

/-- Answers to questions that are not asked make no difference. -/
theorem run_congr {p : Protocol α} (h : ∀ i ∈ p.asked V, V' i = V i) : p.run V' = p.run V := by
  induction p with
  | done a => rfl
  | fail e => rfl
  | ask i next ih =>
    rw [asked, List.forall_mem_cons] at h
    obtain ⟨hi, hrest⟩ := h
    rw [run, run, hi]
    cases hv : V i with
    | error e => rfl
    | ok a =>
      rw [hv] at hrest
      exact ih a hrest

/-! ## Questions -/

/-- Asks for a list of values. -/
def askList (invocant : Value) (method : Introspection) : Protocol (List Value) :=
  ask (.call invocant method) fun
    | .ok vs => done vs
    | .error e => fail (.host e)

/-- Asks for one value. -/
def askOne (invocant : Value) (method : Introspection) : Protocol Value := do
  match ← askList invocant method with
  | [v] => return v
  | reply => fail (.arity method.name reply.length)

/-- Asks for the truth of one value. -/
def askFlag (invocant : Value) (method : Introspection) : Protocol Bool := do
  let v ← askOne invocant method
  return v.isTrue

/-- Fails because a value is of no use. -/
def refuse (v : Value) (m : String → Mismatch) : Protocol α :=
  ask (.text v) fun got => fail (.mismatch (m got))

end Protocol

/-! ## Names without a table -/

/-- The key with its name taken out of the table. -/
def Key.bare (k : Key) : Key := ⟨⟨0, k.text⟩, k.hash⟩

/-- The descriptor with its names taken out of the table. -/
def Descriptor.bare (d : Descriptor) : Descriptor :=
  { d with slot := d.slot.bare, initArg := d.initArg.map Key.bare }

/-- The shadow with its names taken out of the table. -/
def Shadow.bare (s : Shadow) : Shadow :=
  { s with descriptors := s.descriptors.map Descriptor.bare }

/-- The payload with its names taken out of the table. -/
def Payload.bare : Payload → Payload
  | tag name => tag name
  | descriptor d => descriptor d.bare
  | shadow s => shadow s.bare

namespace Protocol

/-! ## Attributes -/

variable (hash : String → UInt32)

/-- The key of a name. -/
def key (name : String) : Key := ⟨⟨0, name⟩, hash name⟩

/-- Asks for the slot. -/
def slot (attr : Value) : Protocol Key := do
  match ← askList attr (.ofAttribute .slots) with
  | [v] =>
    match v.text? with
    | some name => return key hash name
    | none => refuse v .slotNotText
  | reply => fail (.slotCount reply.length)

/-- Asks for the init-arg. -/
def initArg (attr : Value) : Protocol (Option Key) := do
  if ← askFlag attr (.ofAttribute .hasInitArg) then
    let v ← askOne attr (.ofAttribute .initArg)
    if v != .undef then
      match v.text? with
      | some name => return some (key hash name)
      | none => refuse v .initArgNotText
    else
      return none
  else
    return none

/-- What a default value becomes. -/
def capture (v : Value) : Protocol DefaultStrategy :=
  match v with
  | .ref _ => ask (.callable v) fun
    | none => refuse v .defaultNotCallable
    | some (some kind) => done (.container kind)
    | some none => done (.value v)
  | _ => done (.value v)

/-- Asks for the default, and for the builder if there is none. -/
def default (attr : Value) : Protocol DefaultStrategy := do
  if ← askFlag attr (.ofAttribute .hasDefault) then
    let v ← askOne attr (.ofAttribute .default)
    capture v
  else if ← askFlag attr (.ofAttribute .hasBuilder) then
    let v ← askOne attr (.ofAttribute .builder)
    match v.text? with
    | some name => return .builder name
    | none => refuse v .builderNotText
  else
    return .none

/-- What an initializer must be. -/
def callable (v : Value) : Protocol (Option CellId) :=
  match v with
  | .ref c => ask (.callable v) fun
    | some _ => done (some c)
    | none => refuse v .initializerNotCallable
  | _ => refuse v .initializerNotCallable

/-- Asks for the initializer. -/
def initializer (attr : Value) : Protocol (Option CellId) := do
  if ← askFlag attr (.ofAttribute .hasInitializer) then
    let v ← askOne attr (.ofAttribute .initializer)
    callable v
  else
    return none

/-- Asks an attribute metaobject for all that goes into its descriptor. -/
def descriptor (attr : Value) : Protocol Descriptor :=
  match attr with
  | .ref origin => do
    let slot ← slot hash attr
    let initArg ← initArg hash attr
    let default ← default attr
    let initializer ← initializer attr
    return { slot, initArg, default, initializer, origin }
  | _ => refuse attr .attributeNotReference

/-! ## Instance metaobjects -/

variable (config : Config)

/-- Asks attributes in order. -/
def attributes : Shadow → List Value → Protocol Shadow
  | s, [] => return s
  | s, attr :: rest => do
    let d ← descriptor hash attr
    attributes (s.append d) rest

/-- Asks for the class of that name and for its generation. -/
def ofClassName (className : String) : Protocol Shadow :=
  ask (.named className) fun
    | none => fail (.mismatch (.unknownClass className))
    | some cls => ask (.generation cls) fun generation =>
      done { cls, className, layout := config.layout, generation }

/-- Asks an instance metaobject for the name of its class, and for the class. -/
def resolve (inst : Value) : Protocol Shadow :=
  ask (.derives inst config.instanceBaseClass) fun
    | true => do
      let v ← askOne inst (.ofInstance .className)
      match v.text? with
      | some className => ofClassName config className
      | none => refuse v .classNameNotText
    | false => refuse inst (.notInstanceMeta · config.instanceBaseClass)

/-- Asks an instance metaobject for its attributes, and these in order. -/
def fill (inst : Value) (empty : Shadow) : Protocol Shadow := do
  let attrs ← askList inst (.ofInstance .allAttributes)
  attributes hash empty attrs

/-- Asks an instance metaobject for all that goes into its shadow. -/
def shadow (inst : Value) : Protocol Shadow := do
  let empty ← resolve config inst
  fill hash inst empty

end Protocol

end MetaCache
