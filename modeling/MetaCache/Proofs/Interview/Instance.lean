import MetaCache.Proofs.Dialogue.Compile
import MetaCache.Proofs.Dialogue.Queries
/-!
# How an instance metaobject is to be compiled

Once it is known to derive from the base class, an instance metaobject is asked for the name of its
class, and that class is resolved and its generation read; then it is asked for its attributes, and
the values of that reply are compiled one after another, each in the world that the one before it
has left. The first step that fails is the last one.

* `Dialogue.Proceeds`: the queries of a dialogue together with its outcome.
* `Shadow.Resolves`, `Shadow.Lists`, `Shadow.Compiles`: the steps, and all of them together.
* `Shadow.proceeds_of_compiles`, `Shadow.exists_compiles`: compiling goes by these steps.
-/

namespace MetaCache

namespace Dialogue

variable {α β : Type} {host : Host} {d : Dialogue α} {f : α → Dialogue β} {w w₁ : World}
  {qs qs' : List Query} {out : Except Halt (Except Error β × World)}

/-- Begun in `w`, the dialogue makes these queries and has that outcome. -/
def Proceeds (host : Host) (d : Dialogue α) (w : World) (qs : List Query)
    (out : Except Halt (Except Error α × World)) : Prop :=
  d.run host w = out ∧ d.queries host w = qs

namespace Proceeds

theorem work_bind {x : Work α}
    (h : Proceeds host (f (x.apply host w).1) (x.apply host w).2 qs out) :
    Proceeds host (Dialogue.work x >>= f) w qs out := h

theorem bind_ok {a : α} (h : Proceeds host d w qs (.ok (.ok a, w₁)))
    (hf : Proceeds host (f a) w₁ qs' out) : Proceeds host (d >>= f) w (qs ++ qs') out := by
  constructor
  · rw [run_bind, Build.bind_apply, h.1]
    exact hf.1
  · rw [queries_bind, h.1, h.2]
    exact congrArg (qs ++ ·) hf.2

/-- What is done with the result asks nothing. -/
theorem bind_own {a : α} (h : Proceeds host d w qs (.ok (.ok a, w₁)))
    (hf : Proceeds host (f a) w₁ [] out) : Proceeds host (d >>= f) w qs out := by
  have hbind := h.bind_ok hf
  rwa [List.append_nil] at hbind

theorem bind_error {e : Error} (h : Proceeds host d w qs (.ok (.error e, w₁))) :
    Proceeds host (d >>= f) w qs (.ok (.error e, w₁)) := by
  constructor
  · rw [run_bind, Build.bind_apply, h.1]
  · rw [queries_bind, h.1, h.2]
    exact List.append_nil qs

theorem bind_halt {e : Halt} (h : Proceeds host d w qs (.error e)) :
    Proceeds host (d >>= f) w qs (.error e) := by
  constructor
  · rw [run_bind, Build.bind_apply, h.1]
  · rw [queries_bind, h.1, h.2]
    exact List.append_nil qs

variable {os : List Owned}

theorem guarding_ok {a : α} (h : Proceeds host d w qs (.ok (.ok a, w₁))) :
    Proceeds host (d.guarding os) w qs (.ok (.ok a, w₁)) := by
  constructor
  · rw [run_guarding, Build.guarding_apply, h.1]
  · rw [queries_guarding, h.2]

theorem guarding_error {e : Error} (h : Proceeds host d w qs (.ok (.error e, w₁))) :
    Proceeds host (d.guarding os) w qs (.ok (.error e, w₁.onStore (·.release os))) := by
  constructor
  · rw [run_guarding, Build.guarding_apply, h.1]
  · rw [queries_guarding, h.2]

theorem guarding_halt {e : Halt} (h : Proceeds host d w qs (.error e)) :
    Proceeds host (d.guarding os) w qs (.error e) := by
  constructor
  · rw [run_guarding, Build.guarding_apply, h.1]
  · rw [queries_guarding, h.2]

variable {v : Value} {m : Introspection}

theorem askList_ok {vs : List Value} (h : host.callMethod v m.name w = .ok (.ok vs, w₁)) :
    Proceeds host (askList v m) w [⟨v, m, w, .ok vs, w₁⟩] (.ok (.ok vs, w₁)) :=
  ⟨by rw [askList, run_asks, h]; rfl, queries_asks h _⟩

theorem askList_error {e : HostError} (h : host.callMethod v m.name w = .ok (.error e, w₁)) :
    Proceeds host (askList v m) w [⟨v, m, w, .error e, w₁⟩] (.ok (.error (.host e), w₁)) :=
  ⟨by rw [askList, run_asks, h]; rfl, queries_asks h _⟩

theorem askList_halt {e : Halt} (h : host.callMethod v m.name w = .error e) :
    Proceeds host (askList v m) w [] (.error e) :=
  ⟨by rw [askList, run_asks, h]; rfl, queries_asks_of_error h _⟩

theorem askOne_ok {a : Value} (h : host.callMethod v m.name w = .ok (.ok [a], w₁)) :
    Proceeds host (askOne v m) w [⟨v, m, w, .ok [a], w₁⟩]
      (.ok (.ok (w₁.store.upgrade a).1, { w₁ with store := (w₁.store.upgrade a).2 })) :=
  (askList_ok h).bind_own ⟨rfl, rfl⟩

theorem askOne_miscounted {vs : List Value} (h : host.callMethod v m.name w = .ok (.ok vs, w₁))
    (hvs : vs.length ≠ 1) :
    Proceeds host (askOne v m) w [⟨v, m, w, .ok vs, w₁⟩]
      (.ok (.error (.arity m.name vs.length), w₁.onStore (·.release (ownedByAll vs)))) := by
  refine (askList_ok h).bind_own ?_
  match vs, hvs with
  | [], _ => exact ⟨rfl, rfl⟩
  | _ :: _ :: _, _ => exact ⟨rfl, rfl⟩

end Proceeds

end Dialogue

open Dialogue (Proceeds)

namespace Shadow

/-! ## The steps -/

/-- Where resolving the class of `inst` comes to from `w`, and by which queries. -/
inductive Resolves (host : Host) (inst : Value) (w : World) :
    List Query → Except Halt (Except Error Shadow × World) → Prop
  /-- What does not derive from the base class is not asked anything. -/
  | foreign (hd : host.derivesFrom w inst w.cache.config.instanceBaseClass = false) :
    Resolves host inst w [] (.ok (.error (.mismatch (.notInstanceMeta (w.store.valueText inst)
      w.cache.config.instanceBaseClass)), w))
  | unanswered (hd : host.derivesFrom w inst w.cache.config.instanceBaseClass = true) {h : Halt}
    (hq : host.callMethod inst InstanceQuery.className.method w = .error h) :
    Resolves host inst w [] (.error h)
  | failed (hd : host.derivesFrom w inst w.cache.config.instanceBaseClass = true) {e : HostError}
    {w₁ : World} (hq : host.callMethod inst InstanceQuery.className.method w = .ok (.error e, w₁)) :
    Resolves host inst w [⟨inst, .ofInstance .className, w, .error e, w₁⟩]
      (.ok (.error (.host e), w₁))
  | miscounted (hd : host.derivesFrom w inst w.cache.config.instanceBaseClass = true)
    {vs : List Value} {w₁ : World}
    (hq : host.callMethod inst InstanceQuery.className.method w = .ok (.ok vs, w₁))
    (hvs : vs.length ≠ 1) :
    Resolves host inst w [⟨inst, .ofInstance .className, w, .ok vs, w₁⟩]
      (.ok (.error (.arity InstanceQuery.className.method vs.length),
        w₁.onStore (·.release (ownedByAll vs))))
  | nameless (hd : host.derivesFrom w inst w.cache.config.instanceBaseClass = true)
    {v u : Value} {w₁ : World} {s : Store}
    (hq : host.callMethod inst InstanceQuery.className.method w = .ok (.ok [v], w₁))
    (hu : w₁.store.upgrade v = (u, s)) (ht : u.text? = none) :
    Resolves host inst w [⟨inst, .ofInstance .className, w, .ok [v], w₁⟩]
      (.ok (.error (.mismatch (.classNameNotText (s.valueText u))),
        { w₁ with store := s.release u.owned }))
  | unknown (hd : host.derivesFrom w inst w.cache.config.instanceBaseClass = true)
    {v u : Value} {w₁ : World} {s : Store} {name : String}
    (hq : host.callMethod inst InstanceQuery.className.method w = .ok (.ok [v], w₁))
    (hu : w₁.store.upgrade v = (u, s)) (ht : u.text? = some name)
    (hc : host.class? { w₁ with store := s } name = none) :
    Resolves host inst w [⟨inst, .ofInstance .className, w, .ok [v], w₁⟩]
      (.ok (.error (.mismatch (.unknownClass name)), { w₁ with store := s }))
  /-- The class is held by the shadow before its generation is read. -/
  | found (hd : host.derivesFrom w inst w.cache.config.instanceBaseClass = true)
    {v u : Value} {w₁ w₂ : World} {s : Store} {name : String} {cls : CellId}
    (hq : host.callMethod inst InstanceQuery.className.method w = .ok (.ok [v], w₁))
    (hu : w₁.store.upgrade v = (u, s)) (ht : u.text? = some name)
    (hc : host.class? { w₁ with store := s } name = some cls)
    (hw : w₂ = { w₁ with store := s.retain [.cell cls] }) :
    Resolves host inst w [⟨inst, .ofInstance .className, w, .ok [v], w₁⟩]
      (.ok (.ok {
        cls, className := name, layout := w₂.cache.config.layout,
        generation := host.generation w₂ cls }, w₂))

/-- From `w` all of the attributes were compiled, one after another: each where the one before it
had ended and had been given back. -/
inductive Lists (host : Host) : World → List Value → List Descriptor → List Query → World → Prop
  | nil {w : World} : Lists host w [] [] [] w
  | cons {w w₁ w' : World} {attr : Value} {rest : List Value} {d : Descriptor}
    {ds : List Descriptor} {qs : List Query}
    (h : Descriptor.compile host attr w = .ok (.ok d, w₁))
    (hrest : Lists host (w₁.onStore (·.release attr.owned)) rest ds qs w') :
    Lists host w (attr :: rest) (d :: ds)
      ((Dialogue.descriptor attr).queries host w ++ qs) w'

/-- Where compiling `inst` comes to from `w`, and by which queries. -/
inductive Compiles (host : Host) (inst : Value) (w : World) :
    List Query → Except Halt (Except Error Shadow × World) → Prop
  | unresolved {qs : List Query} {e : Error} {w' : World}
    (h : Resolves host inst w qs (.ok (.error e, w'))) :
    Compiles host inst w qs (.ok (.error e, w'))
  | unresolvedHalt {qs : List Query} {e : Halt} (h : Resolves host inst w qs (.error e)) :
    Compiles host inst w qs (.error e)
  | unlisted {qs : List Query} {s : Shadow} {w₁ w₂ : World} {e : HostError}
    (h : Resolves host inst w qs (.ok (.ok s, w₁)))
    (hq : host.callMethod inst InstanceQuery.allAttributes.method w₁ = .ok (.error e, w₂)) :
    Compiles host inst w (qs ++ [⟨inst, .ofInstance .allAttributes, w₁, .error e, w₂⟩])
      (.ok (.error (.host e), w₂.onStore (·.release [.held (.shadow s)])))
  | unlistedHalt {qs : List Query} {s : Shadow} {w₁ : World} {e : Halt}
    (h : Resolves host inst w qs (.ok (.ok s, w₁)))
    (hq : host.callMethod inst InstanceQuery.allAttributes.method w₁ = .error e) :
    Compiles host inst w qs (.error e)
  /-- The first attribute that fails ends it all, with its own error. -/
  | attributeFailed {qs own : List Query} {s : Shadow} {w₁ w₂ w₃ w₄ : World} {attr : Value}
    {before after : List Value} {ds : List Descriptor} {e : Error}
    (h : Resolves host inst w qs (.ok (.ok s, w₁)))
    (hq : host.callMethod inst InstanceQuery.allAttributes.method w₁ =
      .ok (.ok (before ++ attr :: after), w₂))
    (hl : Lists host w₂ before ds own w₃)
    (he : Descriptor.compile host attr w₃ = .ok (.error e, w₄)) :
    Compiles host inst w
      (qs ++ ⟨inst, .ofInstance .allAttributes, w₁, .ok (before ++ attr :: after), w₂⟩ ::
        (own ++ (Dialogue.descriptor attr).queries host w₃))
      (.ok (.error e, w₄.onStore (·.release
        (attr.owned ++ ownedByAll after ++ [.held (.shadow { s with descriptors := ds })]))))
  | attributeHalt {qs own : List Query} {s : Shadow} {w₁ w₂ w₃ : World} {attr : Value}
    {before after : List Value} {ds : List Descriptor} {e : Halt}
    (h : Resolves host inst w qs (.ok (.ok s, w₁)))
    (hq : host.callMethod inst InstanceQuery.allAttributes.method w₁ =
      .ok (.ok (before ++ attr :: after), w₂))
    (hl : Lists host w₂ before ds own w₃)
    (he : Descriptor.compile host attr w₃ = .error e) :
    Compiles host inst w
      (qs ++ ⟨inst, .ofInstance .allAttributes, w₁, .ok (before ++ attr :: after), w₂⟩ ::
        (own ++ (Dialogue.descriptor attr).queries host w₃)) (.error e)
  /-- Every step has succeeded: there is one descriptor for each attribute, in order. -/
  | done {qs own : List Query} {s : Shadow} {w₁ w₂ w₃ : World} {attrs : List Value}
    {ds : List Descriptor} (h : Resolves host inst w qs (.ok (.ok s, w₁)))
    (hq : host.callMethod inst InstanceQuery.allAttributes.method w₁ = .ok (.ok attrs, w₂))
    (hl : Lists host w₂ attrs ds own w₃) :
    Compiles host inst w (qs ++ ⟨inst, .ofInstance .allAttributes, w₁, .ok attrs, w₂⟩ :: own)
      (.ok (.ok { s with descriptors := ds },
        w₃.onStore (·.note (.compiledShadow s.className ds.length s.generation s.layout))))

variable {host : Host} {inst : Value} {w w' w₃ : World} {qs own : List Query} {s : Shadow}
  {ds : List Descriptor} {attrs before : List Value}
  {out : Except Halt (Except Error Shadow × World)}

/-! ## Compiling goes by the steps -/

/-- Behind the look at the base class. -/
theorem proceeds_resolve (hd : host.derivesFrom w inst w.cache.config.instanceBaseClass = true)
    (h : Proceeds host (Dialogue.askOne inst (.ofInstance .className) >>= fun v =>
      match v.text? with
      | some className => Dialogue.ofClassName host className
      | none => Dialogue.failMismatch v .classNameNotText) w qs out) :
    Proceeds host (Dialogue.resolve host inst) w qs out := by
  refine .work_bind ?_
  show Proceeds host (if host.derivesFrom w inst w.cache.config.instanceBaseClass then _ else _) w
    qs out
  rwa [if_pos hd]

/-- Behind the reply of one value, which has been made strong. -/
theorem proceeds_resolve_named {v u : Value} {w₁ : World} {t : Store}
    (hd : host.derivesFrom w inst w.cache.config.instanceBaseClass = true)
    (hq : host.callMethod inst InstanceQuery.className.method w = .ok (.ok [v], w₁))
    (hu : w₁.store.upgrade v = (u, t))
    (h : Proceeds host (match u.text? with
      | some className => Dialogue.ofClassName host className
      | none => Dialogue.failMismatch u .classNameNotText) { w₁ with store := t } [] out) :
    Proceeds host (Dialogue.resolve host inst) w
      [⟨inst, .ofInstance .className, w, .ok [v], w₁⟩] out := by
  have hasked := Proceeds.askOne_ok (m := .ofInstance .className) hq
  rw [hu] at hasked
  exact proceeds_resolve hd (hasked.bind_ok h)

theorem proceeds_ofClassName (host : Host) (name : String) (w : World) :
    Proceeds host (Dialogue.ofClassName host name) w [] (ofClassName host name w) := by
  refine ⟨by rw [Dialogue.run_ofClassName], ?_⟩
  rw [Dialogue.ofClassName, Dialogue.work, Dialogue.bind_does, Dialogue.queries]
  dsimp only [Work.apply]
  cases host.class? w name <;> rfl

theorem proceeds_of_resolves (h : Resolves host inst w qs out) :
    Proceeds host (Dialogue.resolve host inst) w qs out := by
  cases h with
  | foreign hd =>
    refine .work_bind ?_
    show Proceeds host (if host.derivesFrom w inst w.cache.config.instanceBaseClass then _ else _) w
      _ _
    rw [if_neg (by rw [hd]; exact Bool.false_ne_true)]
    exact ⟨rfl, rfl⟩
  | unanswered hd hq =>
    exact proceeds_resolve hd (Proceeds.bind_halt (Proceeds.bind_halt (.askList_halt hq)))
  | failed hd hq =>
    exact proceeds_resolve hd (Proceeds.bind_error (Proceeds.bind_error (.askList_error hq)))
  | miscounted hd hq hvs =>
    exact proceeds_resolve hd
      (.bind_error (.askOne_miscounted (m := .ofInstance .className) hq hvs))
  | nameless hd hq hu ht =>
    refine proceeds_resolve_named hd hq hu ?_
    rw [ht]
    exact ⟨rfl, rfl⟩
  | unknown hd hq hu ht hc =>
    refine proceeds_resolve_named hd hq hu ?_
    rw [ht, ← ofClassName_eq_error hc]
    exact proceeds_ofClassName _ _ _
  | @found hd v u w₁ w₂ t name cls hq hu ht hc hw =>
    have hclass := proceeds_ofClassName host name { w₁ with store := t }
    rw [ofClassName_eq_ok hc] at hclass
    refine proceeds_resolve_named hd hq hu ?_
    rw [ht, hw]
    exact hclass

theorem Resolves.descriptors {w₁ : World} (h : Resolves host inst w qs (.ok (.ok s, w₁))) :
    s.descriptors = [] := by
  cases h with
  | found => rfl

theorem proceeds_descriptor (host : Host) (attr : Value) (w : World) :
    Proceeds host (Dialogue.descriptor attr) w ((Dialogue.descriptor attr).queries host w)
      (Descriptor.compile host attr w) :=
  ⟨by rw [Dialogue.run_descriptor], rfl⟩

/-- What was compiled is appended, and compiling goes on with the rest. -/
theorem proceeds_of_lists (h : Lists host w before ds own w₃) {rest : List Value}
    (hrest : Proceeds host (Dialogue.attributes { s with descriptors := s.descriptors ++ ds } rest)
      w₃ qs out) :
    Proceeds host (Dialogue.attributes s (before ++ rest)) w (own ++ qs) out := by
  induction h generalizing s with
  | nil =>
    rw [List.append_nil] at hrest
    exact hrest
  | @cons w w₁ w' attr more d ds own hd _ ih =>
    have hcompiled := proceeds_descriptor host attr w
    rw [hd] at hcompiled
    rw [List.append_assoc]
    refine hcompiled.guarding_ok.bind_ok (.work_bind (ih ?_))
    rwa [append, List.append_assoc]

theorem proceeds_attributes_error {attr : Value} {rest : List Value} {e : Error} {w₄ : World}
    (he : Descriptor.compile host attr w₃ = .ok (.error e, w₄)) :
    Proceeds host (Dialogue.attributes s (attr :: rest)) w₃
      ((Dialogue.descriptor attr).queries host w₃)
      (.ok (.error e, w₄.onStore (·.release
        (attr.owned ++ ownedByAll rest ++ [.held (.shadow s)])))) := by
  have hcompiled := proceeds_descriptor host attr w₃
  rw [he] at hcompiled
  exact hcompiled.guarding_error.bind_error

theorem proceeds_attributes_halt {attr : Value} {rest : List Value} {e : Halt}
    (he : Descriptor.compile host attr w₃ = .error e) :
    Proceeds host (Dialogue.attributes s (attr :: rest)) w₃
      ((Dialogue.descriptor attr).queries host w₃) (.error e) := by
  have hcompiled := proceeds_descriptor host attr w₃
  rw [he] at hcompiled
  exact hcompiled.guarding_halt.bind_halt

/-- Behind the reply with the attributes. -/
theorem proceeds_shadow {w₁ w₂ : World} (h : Resolves host inst w qs (.ok (.ok s, w₁)))
    (hq : host.callMethod inst InstanceQuery.allAttributes.method w₁ = .ok (.ok attrs, w₂))
    (hrest : Proceeds host (do
      let s ← Dialogue.attributes s attrs
      Dialogue.work (.note (.compiledShadow s.className s.descriptors.length s.generation s.layout))
      return s) w₂ own out) :
    Proceeds host (Dialogue.shadow host inst) w
      (qs ++ ⟨inst, .ofInstance .allAttributes, w₁, .ok attrs, w₂⟩ :: own) out :=
  (proceeds_of_resolves h).bind_ok
    ((Proceeds.askList_ok (m := .ofInstance .allAttributes) hq).guarding_ok.bind_ok hrest)

theorem proceeds_of_compiles (h : Compiles host inst w qs out) :
    Proceeds host (Dialogue.shadow host inst) w qs out := by
  cases h with
  | unresolved h => exact (proceeds_of_resolves h).bind_error
  | unresolvedHalt h => exact (proceeds_of_resolves h).bind_halt
  | unlisted h hq =>
    exact (proceeds_of_resolves h).bind_ok (.bind_error (.guarding_error
      (.askList_error (m := .ofInstance .allAttributes) hq)))
  | @unlistedHalt qs _ _ _ h hq =>
    have hasked := Proceeds.askList_halt (m := .ofInstance .allAttributes) hq
    have hshadow := (proceeds_of_resolves h).bind_ok (f := Dialogue.fill inst)
      hasked.guarding_halt.bind_halt
    rwa [List.append_nil] at hshadow
  | @attributeFailed _ _ s _ _ _ _ attr before after ds e h hq hl he =>
    refine proceeds_shadow h hq (.bind_error (proceeds_of_lists hl ?_))
    rw [h.descriptors, List.nil_append]
    exact proceeds_attributes_error he
  | attributeHalt h hq hl he =>
    exact proceeds_shadow h hq (.bind_halt (proceeds_of_lists hl (proceeds_attributes_halt he)))
  | @done _ own s w₁ w₂ w₃ attrs ds h hq hl =>
    have hattrs : Proceeds host (Dialogue.attributes s (attrs ++ [])) w₂ (own ++ [])
        (.ok (.ok { s with descriptors := s.descriptors ++ ds }, w₃)) :=
      proceeds_of_lists hl ⟨rfl, rfl⟩
    rw [h.descriptors, List.nil_append, List.append_nil, List.append_nil] at hattrs
    exact proceeds_shadow h hq (hattrs.bind_own ⟨rfl, rfl⟩)

/-! ## There is nothing else that it could do -/

theorem exists_resolves (host : Host) (inst : Value) (w : World) :
    ∃ qs out, Resolves host inst w qs out := by
  cases hd : host.derivesFrom w inst w.cache.config.instanceBaseClass with
  | false => exact ⟨_, _, .foreign hd⟩
  | true =>
    match hq : host.callMethod inst InstanceQuery.className.method w with
    | .error h => exact ⟨_, _, .unanswered hd hq⟩
    | .ok (.error e, w₁) => exact ⟨_, _, .failed hd hq⟩
    | .ok (.ok [], w₁) => exact ⟨_, _, .miscounted hd hq (by simp)⟩
    | .ok (.ok (a :: b :: rest), w₁) => exact ⟨_, _, .miscounted hd hq (by simp)⟩
    | .ok (.ok [v], w₁) =>
      cases ht : (w₁.store.upgrade v).1.text? with
      | none => exact ⟨_, _, .nameless hd hq rfl ht⟩
      | some name =>
        cases hc : host.class? { w₁ with store := (w₁.store.upgrade v).2 } name with
        | none => exact ⟨_, _, .unknown hd hq rfl ht hc⟩
        | some cls => exact ⟨_, _, .found hd hq rfl ht hc rfl⟩

/-- Either all of the attributes are compiled, or there is a first one that is not. -/
theorem lists_or_stops (host : Host) (attrs : List Value) (w : World) :
    (∃ ds own w', Lists host w attrs ds own w') ∨
      ∃ before attr after ds own w₃, attrs = before ++ attr :: after ∧
        Lists host w before ds own w₃ ∧
        ((∃ e w₄, Descriptor.compile host attr w₃ = .ok (.error e, w₄)) ∨
          ∃ e, Descriptor.compile host attr w₃ = .error e) := by
  induction attrs generalizing w with
  | nil => exact .inl ⟨_, _, _, .nil⟩
  | cons attr rest ih =>
    match hd : Descriptor.compile host attr w with
    | .error e => exact .inr ⟨[], attr, rest, _, _, w, rfl, .nil, .inr ⟨e, hd⟩⟩
    | .ok (.error e, w₁) => exact .inr ⟨[], attr, rest, _, _, w, rfl, .nil, .inl ⟨e, w₁, hd⟩⟩
    | .ok (.ok d, w₁) =>
      rcases ih (w₁.onStore (·.release attr.owned)) with
        ⟨ds, own, w', hl⟩ | ⟨before, attr', after, ds, own, w₃, rfl, hl, hstop⟩
      · exact .inl ⟨_, _, _, .cons hd hl⟩
      · exact .inr ⟨attr :: before, attr', after, _, _, w₃, rfl, .cons hd hl, hstop⟩

theorem exists_compiles (host : Host) (inst : Value) (w : World) :
    ∃ qs out, Compiles host inst w qs out := by
  obtain ⟨qs, out, h⟩ := exists_resolves host inst w
  match out, h with
  | .error e, h => exact ⟨_, _, .unresolvedHalt h⟩
  | .ok (.error e, w₁), h => exact ⟨_, _, .unresolved h⟩
  | .ok (.ok s, w₁), h =>
    match hq : host.callMethod inst InstanceQuery.allAttributes.method w₁ with
    | .error e => exact ⟨_, _, .unlistedHalt h hq⟩
    | .ok (.error e, w₂) => exact ⟨_, _, .unlisted h hq⟩
    | .ok (.ok attrs, w₂) =>
      rcases lists_or_stops host attrs w₂ with
        ⟨ds, own, w', hl⟩ | ⟨before, attr, after, ds, own, w₃, rfl, hl, ⟨e, w₄, he⟩ | ⟨e, he⟩⟩
      · exact ⟨_, _, .done h hq hl⟩
      · exact ⟨_, _, .attributeFailed h hq hl he⟩
      · exact ⟨_, _, .attributeHalt h hq hl he⟩

end Shadow

end MetaCache
