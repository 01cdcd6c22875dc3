import MetaCache.Proofs.History.Quiet
import MetaCache.Script.Run
/-!
# Metaobjects that answer without code

With no depth left for host code, the host of a script answers from what it has: from the fixed
replies of its metaobjects and from the attributes of its classes. Such an answer is read off the
world as it stands, and giving it does no more than share the values that are handed out.

* `plainReply`, `callMethod_plain`: what is read off the world, and that this is the reply.
* `answers_upkeep`, `answers_quiet`: what an answer does to the world.
* `plainHost`, `classWorld`, `pointWorld`: a host of this kind, and worlds for examples.
-/

namespace MetaCache

open Script

variable {host : Host} {w w' : World} {f : Holding} {c : CellId} {o : Object}

theorem registered_scriptedHost (i : Interpreter) : (scriptedHost i).Registered := ⟨rfl, rfl⟩

/-- The host that answers without code. -/
def plainHost : Host := scriptedHost (interpret 0)

/-! ## Replies -/

/-- Why a call of the code in a cell does not come to its end. -/
def plainHalt (w : World) (d : CellId) : Halt :=
  match w.store.code? (.ref d) with
  | none => .refused "a call of no code"
  | some _ => .exhausted

/-- The reply of a method of the registry. -/
def registeredReply (w : World) (c : CellId) (m : String) :
    Except Halt (Except HostError (List Value)) :=
  match w.registry.methods.lookup m with
  | none => .ok (.error { message := noMethodMessage m (w.store.cellText c) })
  | some d => .error (plainHalt w d)

/-- The attributes of the class of that name. -/
def attributesReply (w : World) (name : String) : Except HostError (List Value) :=
  match w.class? name with
  | none => .error { message := noClassMessage name }
  | some c => .ok (((w.objectIn? c).map Object.attributes).getD [])

/-- The reply of a behaviour. -/
def behaviorReply : Behavior → Except Halt (Except HostError (List Value))
  | .reply vs => .ok (.ok vs)
  | .fail message => .ok (.error { message })
  | .hook .. => .error .exhausted

/-- The reply of an object without a behaviour for the method. -/
def objectReply (w : World) (c : CellId) (o : Option Object) (m : String) :
    Except Halt (Except HostError (List Value)) :=
  match o with
  | some (.instanceMeta name _) =>
    if m = InstanceQuery.className.method then .ok (.ok [.str name])
    else if m = InstanceQuery.allAttributes.method then .ok (attributesReply w name)
    else registeredReply w c m
  | _ => registeredReply w c m

/-- The reply to a call of a method of a value. -/
def plainReply (w : World) (v : Value) (m : String) :
    Except Halt (Except HostError (List Value)) :=
  match v with
  | .ref c =>
    match (w.objectIn? c).bind fun o => o.behaviors.lookup m with
    | some b => behaviorReply b
    | none => objectReply w c (w.objectIn? c) m
  | _ => .ok (.error { message := notReferenceMessage m })

/-- What a reply does to the world. -/
def World.share (reply : Except HostError (List Value)) (w : World) :
    Except HostError (List Value) × World :=
  (reply, w.onStore (·.retain (ownedByReply reply)))

theorem runBehavior_plain (c : CellId) (m : String) (b : Behavior) (w : World) :
    runBehavior (interpret 0) c m b w = (behaviorReply b).map w.share := by
  cases b <;> rfl

theorem classAttributes_plain (name : String) (w : World) :
    classAttributes name w = .ok (w.share (attributesReply w name)) := by
  show (match w.class? name with
    | none => hostFail (noClassMessage name)
    | some c => do
      let w ← get
      let attrs := ((w.objectIn? c).map Object.attributes).getD []
      Action.retain (ownedByAll attrs)
      return attrs : ExceptT HostError Action (List Value)) w = _
  rw [attributesReply]
  cases w.class? name <;> rfl

theorem callCode_apply (i : Interpreter) (d : CellId) (args : List Value) (w : World) :
    callCode i d args w = (match w.store.code? (.ref d) with
      | none => Action.refuse "a call of no code"
      | some code => do
        Action.onStore (·.setReferent d (.code { code with runs := code.runs + 1 }))
        match ← i code.routine code.runs args with
        | [] => return .undef
        | v :: rest =>
          Action.release (ownedByAll rest)
          return v : ExceptT HostError Action Value) w := rfl

/-- Code that is called does not come to its end. -/
theorem callCode_plain (d : CellId) (args : List Value) (w : World) :
    callCode (interpret 0) d args w = .error (plainHalt w d) := by
  rw [callCode_apply, plainHalt]
  cases w.store.code? (.ref d) <;> rfl

theorem plainHalt_retain (w : World) (d : CellId) (o : Owned) :
    plainHalt (w.onStore (·.retain [o])) d = plainHalt w d := by
  have hcell : (w.store.retain [o]).referent? d = w.store.referent? d :=
    congrArg (Option.map Cell.referent) (w.store.cell?_retain [o] d)
  have hcode : (w.store.retain [o]).code? (.ref d) = w.store.code? (.ref d) := by
    simp only [Store.code?, Value.strong?, Option.bind_eq_bind, Option.bind_some, hcell]
  show (match (w.store.retain [o]).code? (.ref d) with
    | none => Halt.refused "a call of no code"
    | some _ => .exhausted) = _
  rw [hcode, plainHalt]

theorem callRegistered_apply (i : Interpreter) (c : CellId) (m : String) (w : World) :
    callRegistered i c m w =
      (match w.registry.methods.lookup m with
      | none => do
        let cell ← Action.readStore (·.cellText c)
        hostFail (noMethodMessage m cell)
      | some d => do
        Action.retain [.cell d]
        let v ← tryCatch (callCode i d [.ref c]) fun e => do
          Action.release [.cell d]
          throw e
        Action.release [.cell d]
        return [v] : ExceptT HostError Action (List Value)) w := rfl

theorem callRegistered_plain (c : CellId) (m : String) (w : World) :
    callRegistered (interpret 0) c m w = (registeredReply w c m).map w.share := by
  rw [callRegistered_apply, registeredReply]
  cases w.registry.methods.lookup m with
  | none => rfl
  | some d =>
    show Except.bind (Except.bind (callCode (interpret 0) d [.ref c]
      (w.onStore (·.retain [.cell d]))) _) _ = .error (plainHalt w d)
    rw [callCode_plain, plainHalt_retain]
    rfl

theorem callMethod_ref_apply (i : Interpreter) (c : CellId) (m : String) (w : World) :
    callMethod i (.ref c) m w =
      (match (w.objectIn? c).bind fun o => o.behaviors.lookup m, w.objectIn? c with
      | some b, _ => runBehavior i c m b
      | none, some (.instanceMeta name _) =>
        if m = InstanceQuery.className.method then return [.str name]
        else if m = InstanceQuery.allAttributes.method then classAttributes name
        else callRegistered i c m
      | _, _ => callRegistered i c m : ExceptT HostError Action (List Value))
        w.countCall := rfl

/-- The host counts the call, reads its reply off the world and shares it. -/
theorem callMethod_plain (v : Value) (m : String) (w : World) :
    plainHost.callMethod v m w = (plainReply w v m).map w.countCall.share := by
  cases v with
  | ref c =>
    show callMethod (interpret 0) (.ref c) m w = _
    rw [callMethod_ref_apply, plainReply]
    cases (w.objectIn? c).bind fun o => o.behaviors.lookup m with
    | some b => exact runBehavior_plain c m b w.countCall
    | none =>
      cases w.objectIn? c with
      | none => exact callRegistered_plain c m w.countCall
      | some o =>
        cases o with
        | instanceMeta name bs =>
          dsimp only
          rw [objectReply]
          split
          · rfl
          · split
            · exact classAttributes_plain name w.countCall
            · exact callRegistered_plain c m w.countCall
        | _ => exact callRegistered_plain c m w.countCall
  | _ => rfl

/-! ## What an answer does -/

/-- What the value owns is owned by an object of the world as well. -/
def World.Has (w : World) (x : Value) : Prop :=
  ∃ c o, w.objectIn? c = some o ∧ ∀ p ∈ x.owned, p ∈ o.owned

/-- The reply gives away nothing but what objects of the world have. -/
def World.Hands (w : World) : Except HostError (List Value) → Prop
  | .ok vs => ∀ x ∈ vs, w.Has x
  | .error e => e.thrown.owned = []

theorem hands_registeredReply {m : String} {reply : Except HostError (List Value)}
    (h : registeredReply w c m = .ok reply) : w.Hands reply := by
  unfold registeredReply at h
  split at h <;> cases h
  rfl

theorem hands_attributesReply (name : String) : w.Hands (attributesReply w name) := by
  unfold attributesReply
  split
  · rfl
  · rename_i d _
    intro x hx
    cases ho : w.objectIn? d with
    | none => rw [ho] at hx; cases hx
    | some o =>
      rw [ho] at hx
      cases o with
      | classMeta n g attrs =>
        exact ⟨d, _, ho, fun p hp => List.mem_flatMap.2 ⟨x, hx, hp⟩⟩
      | _ => cases hx

theorem hands_behaviorReply {m : String} {b : Behavior} {reply : Except HostError (List Value)}
    (ho : w.objectIn? c = some o) (hb : o.behaviors.lookup m = some b)
    (h : behaviorReply b = .ok reply) : w.Hands reply := by
  cases b with
  | reply vs =>
    cases h
    intro x hx
    refine ⟨c, o, ho, fun p hp => ?_⟩
    have hmem : p ∈ o.behaviors.flatMap fun e => e.2.owned :=
      List.mem_flatMap.2 ⟨(m, .reply vs), mem_of_lookup hb, List.mem_flatMap.2 ⟨x, hx, hp⟩⟩
    cases o with
    | attributeMeta bs | instanceMeta _ bs => exact hmem
    | _ => cases hmem
  | fail message =>
    cases h
    rfl
  | hook routine runs => cases h

theorem hands_plainReply {v : Value} {m : String} {reply : Except HostError (List Value)}
    (h : plainReply w v m = .ok reply) : w.Hands reply := by
  cases v with
  | ref c =>
    rw [plainReply] at h
    cases ho : w.objectIn? c with
    | none =>
      rw [ho] at h
      exact hands_registeredReply h
    | some o =>
      rw [ho, Option.bind_some] at h
      cases hb : o.behaviors.lookup m with
      | some b =>
        rw [hb] at h
        exact hands_behaviorReply ho hb h
      | none =>
        rw [hb] at h
        cases o with
        | instanceMeta name bs =>
          dsimp only at h
          rw [objectReply] at h
          split at h
          · cases h
            intro x hx
            rw [List.mem_singleton.1 hx]
            exact ⟨c, _, ho, fun _ hp => nomatch hp⟩
          · split at h
            · cases h
              exact hands_attributesReply name
            · exact hands_registeredReply h
        | _ => exact hands_registeredReply h
  | _ =>
    cases h
    rfl

/-- What an object has is there to be shared. -/
theorem World.Covers.present_of_has (h : w.Covers f) {x : Value} (hx : w.Has x) :
    ∀ p ∈ x.owned, w.store.present p := by
  obtain ⟨c, o, ho, hown⟩ := hx
  intro p hp
  cases x with
  | ref d =>
    obtain ⟨y, hy, hyr⟩ := Option.map_eq_some_iff.1 (World.objectIn?_eq_some.1 ho)
    have hmem : p ∈ y.owned := by
      rw [Cell.owned, hyr]
      exact List.mem_append_left _ (hown _ hp)
    rw [List.mem_singleton.1 hp] at hmem ⊢
    refine Store.Covers.alive h (Nat.add_pos_left (Nat.lt_of_lt_of_le ?_
      (Store.holding_owned_le_held hy (.cell d))) _)
    exact holding_pos rfl hmem
  | weak d => rw [List.mem_singleton.1 hp]; rfl
  | _ => cases hp

theorem World.Covers.present_of_hands (h : w.Covers f) {reply : Except HostError (List Value)}
    (hr : w.Hands reply) : ∀ p ∈ ownedByReply reply, w.store.present p := by
  intro p hp
  cases reply with
  | ok vs =>
    obtain ⟨x, hx, hpx⟩ := List.mem_flatMap.1 hp
    exact h.present_of_has (hr x hx) p hpx
  | error e =>
    rw [ownedByReply, show e.thrown.owned = [] from hr] at hp
    cases hp

/-- An answer is the reply that was read off the world, and it is shared. -/
theorem answers_plain {q : Query} (hq : plainHost.Answers q) :
    plainReply q.before q.invocant q.method.name = .ok q.reply ∧
      q.after = q.before.countCall.onStore (·.retain (ownedByReply q.reply)) := by
  have h := (callMethod_plain q.invocant q.method.name q.before).symm.trans hq
  cases hp : plainReply q.before q.invocant q.method.name with
  | error e => rw [hp] at h; cases h
  | ok reply =>
    rw [hp] at h
    obtain ⟨hreply, hafter⟩ := Prod.mk.inj (Except.ok.inj h)
    subst hreply
    exact ⟨rfl, hafter.symm⟩

theorem answers_upkeep {q : Query} (hq : plainHost.Answers q) : q.before.Upkeep q.after := by
  have hcount : q.before.Upkeep q.before.countCall :=
    ⟨(Store.Sheds.refl _).keeps, rfl, rfl, rfl, rfl⟩
  rw [(answers_plain hq).2]
  exact hcount.trans (.retain _ _)

theorem answers_quiet (hr : host.Registered) {q : Query} (hq : plainHost.Answers q) :
    host.Quiet q.before 0 q.after (holding (ownedByReply q.reply)) := by
  obtain ⟨hreply, hafter⟩ := answers_plain hq
  have hcount : host.Quiet q.before 0 q.before.countCall 0 :=
    .of_sheds hr.orderly (.refl q.before.store) rfl fun _ h => h
  have hshare := Host.Quiet.of_retain hr.orderly (w := q.before.countCall) (f := 0) fun g hg =>
    hg.present_of_hands (hands_plainReply hreply)
  rw [hafter]
  rw [add_zero] at hshare
  exact hcount.trans hshare

theorem sideEffectFree_plainHost : plainHost.SideEffectFree where
  quiet hq := answers_quiet (registered_scriptedHost _) hq

/-! ## A small world -/

namespace Build

variable {α : Type}

/-- What a computation answers. -/
def answer? (x : Build α) (w : World) : Option α :=
  match x w with
  | .ok (.ok a, _) => some a
  | _ => none

/-- How a computation fails. -/
def failure? (x : Build α) (w : World) : Option Error :=
  match x w with
  | .ok (.error e, _) => some e
  | _ => none

/-- The world that a computation leaves. -/
def leaves (x : Build α) (w : World) : World :=
  match x w with
  | .ok (_, w') => w'
  | .error _ => w

theorem eq_of_answer? {x : Build α} {w : World} {a : α} (h : x.answer? w = some a) :
    x w = .ok (.ok a, x.leaves w) := by
  unfold answer? at h
  unfold leaves
  split at h
  · rename_i hx
    cases h
    rw [hx]
  · cases h

theorem eq_of_failure? {x : Build α} {w : World} {e : Error} (h : x.failure? w = some e) :
    x w = .ok (.error e, x.leaves w) := by
  unfold failure? at h
  unfold leaves
  split at h
  · rename_i hx
    cases h
    rw [hx]
  · cases h

end Build

/-- A world with an attribute metaobject and a class that has it. -/
def classWorld : World :=
  let w := World.onStore (fun s => (s.newCell (.object (.attributeMeta (bareAttribute "x")))).2) {}
  (w.defineClass "Point" [.ref 0]).2

/-- The same world with an instance metaobject of the class. -/
def pointWorld : World :=
  classWorld.onStore fun s => (s.newCell (.object (.instanceMeta "Point" []))).2

theorem World.covers_empty : World.Covers {} 0 := fun _ _ => Nat.zero_le _

theorem change_classWorld : plainHost.Change {} 0 classWorld (holding [.cell 1]) := by
  have hr : plainHost.Registered := registered_scriptedHost _
  have hattr := change_newCell hr.orderly (.object (.attributeMeta (bareAttribute "x"))) {}
  have hclass := change_defineClass hr "Point" [.ref 0]
    (World.onStore (fun s => (s.newCell (.object (.attributeMeta (bareAttribute "x")))).2) {})
  exact hattr.trans hclass

theorem change_pointWorld : plainHost.Change {} 0 pointWorld
    (holding [.cell 2] + holding [.cell 1]) := by
  have hr : plainHost.Registered := registered_scriptedHost _
  have hinst := (change_newCell hr.orderly (.object (.instanceMeta "Point" [])) classWorld).frame
    (holding [.cell 1])
  have hnext : classWorld.store.cells.next = 2 := rfl
  have hnone : (Referent.object (.instanceMeta "Point" [])).owned = [] := rfl
  rw [hnext, hnone, holding_nil, zero_add] at hinst
  exact change_classWorld.trans hinst

end MetaCache
