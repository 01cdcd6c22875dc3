import MetaCache.Proofs.Compile.Outcomes
import MetaCache.Proofs.Dialogue.Basic
/-!
# The dialogues of compilations

Each part of a compilation, written down as a dialogue. As a computation it is what it was, and it
starts with nothing in hand and ends with all that the compiled structure owns, or, if it fails,
with what the error owns: whatever had been obtained by then is given back, wherever the failure
comes from.

* `Dialogue.descriptor`, `Dialogue.run_descriptor`, `Dialogue.balanced_descriptor`: compiling an
  attribute metaobject.
* `Dialogue.shadow`, `Dialogue.run_shadow`, `Dialogue.balanced_shadow`: compiling an instance
  metaobject.
-/

namespace MetaCache.Dialogue

variable {α : Type} (host : Host)

/-! ## Queries -/

/-- Asks for a list of values. -/
def askList (v : Value) (m : Introspection) : Dialogue (List Value) :=
  asks v m fun reply => ends (reply.mapError Error.host)

theorem run_askList (v : Value) (m : Introspection) :
    (askList v m).run host = host.askList v m.name := by
  funext w
  rw [askList, run_asks, Host.askList_apply]
  cases host.callMethod v m.name w <;> rfl

theorem balanced_askList (v : Value) (m : Introspection) :
    (askList v m).Balanced 0 fun vs => holding (ownedByAll vs) := by
  intro reply
  rw [add_zero]
  cases reply <;> rfl

/-- Fails after giving back what is in hand. -/
def failReleasing (os : List Owned) (e : Error) : Dialogue α := do
  work (.release os)
  fail e

theorem balanced_failReleasing (os : List Owned) {e : Error} (he : e.owned = [])
    (post : α → Holding) : (failReleasing os e).Balanced (holding os) post :=
  (Balanced.work (.release os)).bind fun _ => .fail he post

/-- Asks for one value. -/
def askOne (v : Value) (m : Introspection) : Dialogue Value := do
  match ← askList v m with
  | [a] => work (.upgrade a)
  | reply => failReleasing (ownedByAll reply) (.arity m.name reply.length)

theorem run_askOne (v : Value) (m : Introspection) :
    (askOne v m).run host = host.askOne v m.name := by
  rw [askOne, run_bind, run_askList]
  refine bind_congr fun reply => ?_
  cases reply with
  | nil => rfl
  | cons a rest => cases rest <;> rfl

theorem balanced_askOne (v : Value) (m : Introspection) :
    (askOne v m).Balanced 0 fun a => holding a.owned := by
  refine (balanced_askList v m).bind fun reply => ?_
  split
  · rw [ownedByAll_singleton]
    exact .work (.upgrade _)
  · exact balanced_failReleasing _ rfl _

/-- Asks for the truth of one value. -/
def askFlag (v : Value) (m : Introspection) : Dialogue Bool := do
  let a ← askOne v m
  let answer ← work (.read (·.store.isTrue a))
  work (.release a.owned)
  return answer

theorem run_askFlag (v : Value) (m : Introspection) :
    (askFlag v m).run host = host.askFlag v m.name := by
  rw [askFlag, run_bind, run_askOne]
  rfl

theorem balanced_askFlag (v : Value) (m : Introspection) :
    (askFlag v m).Balanced 0 fun _ => 0 := by
  exact (balanced_askOne v m).bind fun a => (Balanced.read _ _).bind fun answer =>
    (Balanced.work (.release a.owned)).bind fun _ => .pure answer fun _ => 0

/-- Fails because the value is of no use. -/
def failMismatch (v : Value) (m : String → Mismatch) : Dialogue α := do
  let got ← work (.read (·.store.valueText v))
  failReleasing v.owned (.mismatch (m got))

theorem balanced_failMismatch (v : Value) (m : String → Mismatch) (post : α → Holding) :
    (failMismatch v m).Balanced (holding v.owned) post :=
  (Balanced.read _ _).bind fun _ => balanced_failReleasing _ rfl _

/-- A value that turns out to be text is used up; any other one is given back with a failure. -/
theorem balanced_text {v : Value} {f : String → Dialogue α} {m : String → Mismatch}
    {post : α → Holding} (hf : ∀ t, (f t).Balanced 0 post) :
    Balanced (match v.text? with
      | some t => f t
      | none => failMismatch v m) (holding v.owned) post := by
  cases hv : v.text? with
  | some t =>
    rw [Value.owned_of_text? hv]
    exact hf t
  | none => exact balanced_failMismatch v m post

/-! ## Attributes -/

/-- Asks for the slot. -/
def slot (attr : Value) : Dialogue Key := do
  match ← askList attr (.ofAttribute .slots) with
  | [v] =>
    match v.text? with
    | some name => work (.key name)
    | none => failMismatch v .slotNotText
  | reply => failReleasing (ownedByAll reply) (.slotCount reply.length)

theorem run_slot (attr : Value) : (slot attr).run host = Descriptor.readSlot host attr := by
  rw [slot, run_bind, run_askList]
  refine bind_congr fun reply => ?_
  cases reply with
  | nil => rfl
  | cons v rest =>
    cases rest with
    | nil => dsimp only; cases v.text? <;> rfl
    | cons _ _ => rfl

theorem balanced_slot (attr : Value) : (slot attr).Balanced 0 fun k => holding k.owned := by
  refine (balanced_askList attr (.ofAttribute .slots)).bind fun reply => ?_
  split
  · rw [ownedByAll_singleton]
    exact balanced_text fun t => .work (.key t)
  · exact balanced_failReleasing _ rfl _

/-- Asks for the init-arg. -/
def initArg (attr : Value) : Dialogue (Option Key) := do
  if ← askFlag attr (.ofAttribute .hasInitArg) then
    let v ← askOne attr (.ofAttribute .initArg)
    if ← work (.read (·.store.isDefined v)) then
      match v.text? with
      | some name => return some (← work (.key name))
      | none => failMismatch v .initArgNotText
    else
      work (.release v.owned)
      return none
  else
    return none

theorem run_initArg (attr : Value) :
    (initArg attr).run host = Descriptor.readInitArg host attr := by
  rw [initArg, run_bind, run_askFlag]
  refine bind_congr fun hasInitArg => ?_
  cases hasInitArg with
  | false => rfl
  | true =>
    rw [if_pos rfl, run_bind, run_askOne]
    refine bind_congr fun v => ?_
    rw [run_bind]
    refine bind_congr fun defined => ?_
    cases defined with
    | false => rfl
    | true => rw [if_pos rfl, if_pos rfl]; cases v.text? <;> rfl

theorem balanced_initArg (attr : Value) :
    (initArg attr).Balanced 0 fun k => holding (ownedByKey? k) := by
  refine (balanced_askFlag attr (.ofAttribute .hasInitArg)).bind fun hasInitArg => ?_
  cases hasInitArg with
  | false => exact .pure none fun k => holding (ownedByKey? k)
  | true =>
    refine (balanced_askOne attr (.ofAttribute .initArg)).bind fun v => ?_
    refine (Balanced.read _ _).bind fun defined => ?_
    cases defined with
    | true =>
      refine balanced_text fun t => (Balanced.work (.key t)).bind fun k => ?_
      exact .pure (some k) fun k => holding (ownedByKey? k)
    | false =>
      exact (Balanced.work (.release v.owned)).bind fun _ =>
        .pure none fun k => holding (ownedByKey? k)

/-- What a default value becomes. -/
def capture (v : Value) : Dialogue DefaultStrategy := do
  match v with
  | .ref _ =>
    match ← work (.read (·.store.code? v)) with
    | none => failMismatch v .defaultNotCallable
    | some code =>
      let w ← work (.read id)
      match w.cache.classifier code with
      | some kind =>
        work (.release v.owned)
        return .container kind
      | none => return .value v
  | _ => return .value v

theorem run_capture (v : Value) : (capture v).run host = Descriptor.captureDefault v := by
  cases v with
  | ref c =>
    rw [capture, run_bind]
    refine bind_congr fun code? => ?_
    cases code? with
    | none => rfl
    | some code =>
      rw [run_bind]
      refine bind_congr fun w => ?_
      cases w.cache.classifier code <;> rfl
  | _ => rfl

theorem balanced_capture (v : Value) :
    (capture v).Balanced (holding v.owned) fun d => holding d.owned := by
  cases v with
  | ref c =>
    refine (Balanced.read _ _).bind fun code? => ?_
    cases code? with
    | none => exact balanced_failMismatch _ _ _
    | some code =>
      refine (Balanced.read _ _).bind fun w => ?_
      cases w.cache.classifier code with
      | none => exact .pure (DefaultStrategy.value (.ref c)) fun d => holding d.owned
      | some kind =>
        exact (Balanced.work (.release _)).bind fun _ =>
          .pure (DefaultStrategy.container kind) fun d => holding d.owned
  | _ => exact .pure (DefaultStrategy.value _) fun d => holding d.owned

/-- Asks for the default, and for the builder if there is none. -/
def default (attr : Value) : Dialogue DefaultStrategy := do
  if ← askFlag attr (.ofAttribute .hasDefault) then
    let v ← askOne attr (.ofAttribute .default)
    capture v
  else if ← askFlag attr (.ofAttribute .hasBuilder) then
    let v ← askOne attr (.ofAttribute .builder)
    match v.text? with
    | some name => return .builder name
    | none => failMismatch v .builderNotText
  else
    return .none

theorem run_default (attr : Value) :
    (default attr).run host = Descriptor.readDefault host attr := by
  rw [default, run_bind, run_askFlag]
  refine bind_congr fun hasDefault => ?_
  cases hasDefault with
  | true =>
    rw [if_pos rfl, run_bind, run_askOne]
    exact bind_congr fun v => run_capture host v
  | false =>
    rw [if_neg Bool.false_ne_true, run_bind, run_askFlag]
    refine bind_congr fun hasBuilder => ?_
    cases hasBuilder with
    | false => rfl
    | true =>
      rw [if_pos rfl, run_bind, run_askOne]
      refine bind_congr fun v => ?_
      cases v.text? <;> rfl

theorem balanced_default (attr : Value) :
    (default attr).Balanced 0 fun d => holding d.owned := by
  refine (balanced_askFlag attr (.ofAttribute .hasDefault)).bind fun hasDefault => ?_
  cases hasDefault with
  | true => exact (balanced_askOne attr (.ofAttribute .default)).bind balanced_capture
  | false =>
    refine (balanced_askFlag attr (.ofAttribute .hasBuilder)).bind fun hasBuilder => ?_
    cases hasBuilder with
    | true =>
      refine (balanced_askOne attr (.ofAttribute .builder)).bind fun v => balanced_text fun t => ?_
      exact .pure (DefaultStrategy.builder t) fun d => holding d.owned
    | false => exact .pure DefaultStrategy.none fun d => holding d.owned

/-- Asks for the initializer. -/
def initializer (attr : Value) : Dialogue (Option CellId) := do
  if ← askFlag attr (.ofAttribute .hasInitializer) then
    let v ← askOne attr (.ofAttribute .initializer)
    match v, ← work (.read (·.store.code? v)) with
    | .ref c, some _ => return some c
    | _, _ => failMismatch v .initializerNotCallable
  else
    return none

theorem run_initializer (attr : Value) :
    (initializer attr).run host = Descriptor.readInitializer host attr := by
  rw [initializer, run_bind, run_askFlag]
  refine bind_congr fun hasInitializer => ?_
  cases hasInitializer with
  | false => rfl
  | true =>
    rw [if_pos rfl, run_bind, run_askOne]
    refine bind_congr fun v => ?_
    rw [run_bind]
    refine bind_congr fun code? => ?_
    cases v with
    | ref c => cases code? <;> rfl
    | _ => rfl

theorem balanced_initializer (attr : Value) :
    (initializer attr).Balanced 0 fun c => holding (ownedByCell? c) := by
  refine (balanced_askFlag attr (.ofAttribute .hasInitializer)).bind fun hasInitializer => ?_
  cases hasInitializer with
  | false => exact .pure none fun c => holding (ownedByCell? c)
  | true =>
    refine (balanced_askOne attr (.ofAttribute .initializer)).bind fun v => ?_
    refine (Balanced.read _ _).bind fun code? => ?_
    cases v with
    | ref c =>
      cases code? with
      | some _ => exact .pure (some c) fun c => holding (ownedByCell? c)
      | none => exact balanced_failMismatch _ _ _
    | _ => exact balanced_failMismatch _ _ _

/-- Compiles an attribute metaobject. -/
def descriptor (attr : Value) : Dialogue Descriptor := do
  match attr with
  | .ref origin =>
    let slot ← slot attr
    let initArg ← (initArg attr).guarding slot.owned
    let default ← (default attr).guarding (ownedByKey? initArg ++ slot.owned)
    let initializer ←
      (initializer attr).guarding (default.owned ++ ownedByKey? initArg ++ slot.owned)
    work (.retainWeak origin)
    let d : Descriptor := { slot, initArg, default, initializer, origin }
    work (.note (.compiledDescriptor d.slot d.default.kind d.flags))
    return d
  | _ =>
    let got ← work (.read (·.store.valueText attr))
    fail (.mismatch (.attributeNotReference got))

theorem run_descriptor (attr : Value) :
    (descriptor attr).run host = Descriptor.compile host attr := by
  cases attr with
  | ref origin =>
    rw [descriptor, run_bind, run_slot]
    refine bind_congr fun slot => ?_
    rw [run_bind, run_guarding, run_initArg]
    refine bind_congr fun initArg => ?_
    rw [run_bind, run_guarding, run_default]
    refine bind_congr fun default => ?_
    rw [run_bind, run_guarding, run_initializer]
    rfl
  | _ => rfl

/-- Compiling an attribute ends with all that the descriptor owns. -/
theorem balanced_descriptor (attr : Value) :
    (descriptor attr).Balanced 0 fun d => holding d.owned := by
  cases attr with
  | ref origin =>
    refine (balanced_slot _).bind fun slot => ?_
    have hi := (balanced_initArg (.ref origin)).guarding slot.owned
    rw [zero_add] at hi
    refine hi.bind fun initArg => ?_
    have hd := (balanced_default (.ref origin)).guarding (ownedByKey? initArg ++ slot.owned)
    rw [zero_add, holding_append] at hd
    refine hd.bind fun default => ?_
    have hn := (balanced_initializer (.ref origin)).guarding
      (default.owned ++ ownedByKey? initArg ++ slot.owned)
    rw [zero_add, holding_append, holding_append, add_assoc] at hn
    refine hn.bind fun initializer => (Balanced.retainWeak origin _).bind fun _ =>
      (Balanced.note _ _).bind fun _ => ?_
    -- a failing compilation gives its parts back in the opposite order of a descriptor's
    have he : holding [.weakCell origin] + (holding (ownedByCell? initializer) +
        (holding default.owned + (holding (ownedByKey? initArg) + holding slot.owned))) =
        holding (Descriptor.owned { slot, initArg, default, initializer, origin }) := by
      funext x
      simp only [Descriptor.owned, holding_append, Pi.add_apply]
      omega
    rw [he]
    exact .pure _ fun d : Descriptor => holding d.owned
  | _ => exact (Balanced.read _ _).bind fun _ => .fail rfl _

/-! ## Instance metaobjects -/

/-- Compiles attributes in order and appends them to a shadow. -/
def attributes : Shadow → List Value → Dialogue Shadow
  | s, [] => return s
  | s, attr :: rest => do
    let d ← (descriptor attr).guarding (attr.owned ++ ownedByAll rest ++ [.held (.shadow s)])
    work (.release attr.owned)
    attributes (s.append d) rest

theorem run_attributes (s : Shadow) (attrs : List Value) :
    (attributes s attrs).run host = Shadow.compileAttributes host s attrs := by
  induction attrs generalizing s with
  | nil => rfl
  | cons attr rest ih =>
    rw [attributes, run_bind, run_guarding, run_descriptor]
    refine bind_congr fun d => ?_
    rw [run_bind]
    exact bind_congr fun _ => ih (s.append d)

theorem balanced_attributes (s : Shadow) (attrs : List Value) :
    (attributes s attrs).Balanced (holding (ownedByAll attrs) + holding [.held (.shadow s)])
      fun s => holding [.held (.shadow s)] := by
  induction attrs generalizing s with
  | nil => exact zero_add (holding [.held (.shadow s)])
  | cons attr rest ih =>
    have hc := (balanced_descriptor attr).guarding
      (attr.owned ++ ownedByAll rest ++ [.held (.shadow s)])
    rw [zero_add] at hc
    rw [ownedByAll_cons, ← holding_append]
    refine hc.bind fun d => Balanced.bind ?_ fun _ => ih (s.append d)
    rw [holding_handOn]
    exact .release _ _

/-- The shadow of the class of that name, still without attributes. -/
def ofClassName (className : String) : Dialogue Shadow := do
  match ← work (.findClass className) with
  | none => fail (.mismatch (.unknownClass className))
  | some cls =>
    let w ← work (.read id)
    return {
      cls, className, layout := w.cache.config.layout, generation := host.generation w cls }

theorem run_ofClassName (className : String) :
    (ofClassName host className).run host = Shadow.ofClassName host className := by
  funext w
  have hfound : (work (.findClass className)).run host w = .ok (.ok (host.class? w className),
      w.onStore (·.retain (ownedByCell? (host.class? w className)))) := rfl
  rw [ofClassName, run_bind, Build.bind_apply, hfound, Shadow.ofClassName_apply]
  cases host.class? w className <;> rfl

theorem balanced_ofClassName (className : String) :
    (ofClassName host className).Balanced 0 fun s => holding [.held (.shadow s)] := by
  refine (Balanced.work (.findClass className)).bind fun cls? => ?_
  cases cls? with
  | none => exact .fail rfl _
  | some cls => exact (Balanced.read _ _).bind fun w => rfl

/-- Asks an instance metaobject for the name of its class and resolves it. -/
def resolve (inst : Value) : Dialogue Shadow := do
  let w ← work (.read id)
  let base := w.cache.config.instanceBaseClass
  if host.derivesFrom w inst base then
    let v ← askOne inst (.ofInstance .className)
    match v.text? with
    | some className => ofClassName host className
    | none => failMismatch v .classNameNotText
  else
    let got ← work (.read (·.store.valueText inst))
    fail (.mismatch (.notInstanceMeta got base))

theorem run_resolve (inst : Value) : (resolve host inst).run host = Shadow.resolve host inst := by
  rw [resolve, run_bind]
  refine bind_congr fun w => ?_
  dsimp only
  split
  · rw [run_bind, run_askOne]
    refine bind_congr fun v => ?_
    cases v.text? with
    | some className => exact run_ofClassName host className
    | none => rfl
  · rfl

/-- Resolving ends with the class held by the shadow, which has no attributes yet. -/
theorem balanced_resolve (inst : Value) :
    (resolve host inst).Balanced 0 fun s => holding [.held (.shadow s)] := by
  refine (Balanced.read _ _).bind fun w => ?_
  dsimp only
  split
  · exact (balanced_askOne inst (.ofInstance .className)).bind fun v =>
      balanced_text fun t => balanced_ofClassName host t
  · exact (Balanced.read _ _).bind fun _ => .fail rfl _

/-- Asks an instance metaobject once for its attributes and compiles them. -/
def fill (inst : Value) (empty : Shadow) : Dialogue Shadow := do
  let attrs ← (askList inst (.ofInstance .allAttributes)).guarding [.held (.shadow empty)]
  let s ← attributes empty attrs
  work (.note (.compiledShadow s.className s.descriptors.length s.generation s.layout))
  return s

theorem run_fill (inst : Value) (empty : Shadow) :
    (fill inst empty).run host = Shadow.fill host inst empty := by
  rw [fill, run_bind, run_guarding, run_askList]
  refine bind_congr fun attrs => ?_
  rw [run_bind, run_attributes]
  rfl

/-- Filling starts with the shadow in hand, and ends with the longer one. -/
theorem balanced_fill (inst : Value) (empty : Shadow) :
    (fill inst empty).Balanced (holding [.held (.shadow empty)])
      fun s => holding [.held (.shadow s)] := by
  have hl := (balanced_askList inst (.ofInstance .allAttributes)).guarding [.held (.shadow empty)]
  rw [zero_add] at hl
  exact hl.bind fun attrs => (balanced_attributes empty attrs).bind fun s =>
    (Balanced.note _ _).bind fun _ => .pure s fun s => holding [.held (.shadow s)]

/-- Compiles an instance metaobject. -/
def shadow (inst : Value) : Dialogue Shadow := do
  let empty ← resolve host inst
  fill inst empty

theorem run_shadow (inst : Value) : (shadow host inst).run host = Shadow.compile host inst := by
  rw [shadow, run_bind, run_resolve]
  exact bind_congr fun empty => run_fill host inst empty

/-- Compiling an instance metaobject ends with all that the shadow owns. -/
theorem balanced_shadow (inst : Value) :
    (shadow host inst).Balanced 0 fun s => holding [.held (.shadow s)] :=
  (balanced_resolve host inst).bind fun empty => balanced_fill inst empty

/-- Only the questions that run no host code tell the dialogues of two hosts apart. -/
theorem resolve_congr {host host' : Host} (h : host'.Reads host) (inst : Value) :
    resolve host' inst = resolve host inst := by
  simp only [resolve, ofClassName, h.derivesFrom, h.generation]

end MetaCache.Dialogue
