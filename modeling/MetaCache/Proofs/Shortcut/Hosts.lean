import MetaCache.Proofs.Introspection.Plain
import MetaCache.Proofs.Shortcut.Values
/-!
# The host of a script abreast

The host of a script answers from what metaobjects and classes have, and runs code. The former is
the same in both runs, so it depends on the code alone whether the two can be told apart.

* `Script.Interpreter.Neutral`: code that does the same in both runs.
* `Script.Interpreter.Neutral.sound`: then the classifier is sound,
* `Script.Interpreter.Neutral.neutral_scriptedHost`: and the host does the same in both runs.
-/

namespace MetaCache

open Build (Abreast Alike Done DoneAlike)

/-! ## Code of the host -/

namespace Build

variable {α β : Type}

theorem ofHost_apply (x : ExceptT HostError Action α) (w : World) :
    ofHost x w = (x w).map fun p => (p.1.mapError Error.host, p.2) := by
  show Except.bind (x w) _ = _
  cases x w <;> rfl

theorem ofHost_bind (x : ExceptT HostError Action α) (k : α → ExceptT HostError Action β) :
    ofHost (x >>= k) = ofHost x >>= fun a => ofHost (k a) := by
  funext w
  rw [Build.bind_apply, ofHost_apply, ofHost_apply]
  show (Except.bind (x w) _).map _ = _
  cases x w with
  | error h => rfl
  | ok p =>
    obtain ⟨r, w'⟩ := p
    cases r with
    | error e => rfl
    | ok a => exact (ofHost_apply (k a) w').symm

/-- What is held meanwhile is given back with a failure. -/
theorem ofHost_tryCatch (x : ExceptT HostError Action α) (os : List Owned) :
    ofHost (tryCatch x fun e => do
      Action.release os
      throw e) = guarding os (ofHost x) := by
  funext w
  rw [Build.guarding_apply, ofHost_apply, ofHost_apply]
  show (Except.bind (x w) _).map _ = _
  cases x w with
  | error h => rfl
  | ok p =>
    obtain ⟨r, w'⟩ := p
    cases r <;> rfl

end Build

/-- What is there does not depend on what is in the cells. -/
theorem Store.present_setReferent {s : Store} {c : CellId} {r : Referent} {o : Owned} :
    (s.setReferent c r).present o = s.present o := by
  cases o with
  | cell d => exact s.alive_writeCell c d _
  | _ => rfl

namespace Script

variable {κ : Classifier} {K : CellId → Prop} {G : Generators} {interpret : Interpreter}
  {w v : World} {P f g : Holding}

/-- Host code that does the same in both runs. What the classifier recognises makes a container and
does nothing else. The classifier does not go by the number of calls. -/
structure Interpreter.Neutral (interpret : Interpreter) (κ : Classifier) : Prop where
  runs : ∀ (a : Code) (n : Nat), κ { a with runs := n } = κ a
  generator : ∀ {a : Code} {k : ContainerKind} (n : Nat) (args : List Value), κ a = some k →
    interpret a.routine n args = (do return [← Action.withStore k.produce])
  routine : ∀ {K : CellId → Prop} {G : Generators} {P f g : Holding} {w v : World} (r : Routine)
    (n : Nat) (args : List Value), (∀ o ∈ ownedByAll args, w.store.present o) →
    World.Abreast κ K G P f g w v →
    DoneAlike κ K G (fun vs => holding (ownedByAll vs)) f g
      (Build.ofHost (interpret r n args) w) (Build.ofHost (interpret r n args) v)

namespace Interpreter.Neutral

variable (h : interpret.Neutral κ)

theorem callCode_of_no_code {c : CellId} {args : List Value}
    (hc : w.store.code? (.ref c) = none) :
    callCode interpret c args w = .error (.refused "a call of no code") := by
  rw [callCode_apply, hc]
  rfl

/-- Code that is called was called once more, and its routine is run. -/
theorem callCode_of_code {c : CellId} {a : Code} (ha : w.store.code? (.ref c) = some a)
    (args : List Value) : callCode interpret c args w = (do
      match ← interpret a.routine a.runs args with
      | [] => return .undef
      | u :: rest =>
        Action.release (ownedByAll rest)
        return u : ExceptT HostError Action Value)
          (w.onStore (·.setReferent c (.code { a with runs := a.runs + 1 }))) := by
  rw [callCode_apply, ha]
  rfl

include h

/-- Recognised code that is called makes a container. -/
theorem callCode_of_generator {c : CellId} {a : Code} {k : ContainerKind}
    (ha : w.store.code? (.ref c) = some a) (hk : κ a = some k) (args : List Value) :
    let s := w.store.setReferent c (.code { a with runs := a.runs + 1 })
    callCode interpret c args w =
      .ok (.ok (k.produce s).1, { w with store := (k.produce s).2 }) := by
  rw [callCode_of_code ha, h.generator a.runs args hk]
  -- there is nothing besides the container that would be given back
  show Except.ok (Except.ok _, World.onStore (·.release []) _) = _
  rw [World.onStore_release_nil]
  rfl

/-- The classifier is sound for the host that runs this code. -/
theorem sound : κ.Sound (scriptedHost interpret) where
  runs := h.runs
  call args ha hk := ⟨_, h.callCode_of_generator ha hk args⟩

omit h in
/-- The first value of a reply is kept. -/
theorem first (vs : List Value) :
    Alike κ K G (holding (ownedByAll vs)) (fun a => holding a.owned)
      (Build.ofHost (match vs with
        | [] => return .undef
        | u :: rest => do
          Action.release (ownedByAll rest)
          return u))
      (Build.ofHost (match vs with
        | [] => return .undef
        | u :: rest => do
          Action.release (ownedByAll rest)
          return u)) := by
  cases vs with
  | nil => exact .pure rfl rfl rfl
  | cons u rest =>
    have hsplit : holding (ownedByAll (u :: rest)) =
        holding (ownedByAll rest) + holding u.owned := by
      rw [add_comm, ← holding_append]
      rfl
    have hrest : Alike κ K G (holding (ownedByAll rest) + holding u.owned)
        (fun a => holding a.owned) (Action.release (ownedByAll rest) >>= fun _ => pure u)
        (Action.release (ownedByAll rest) >>= fun _ => pure u) :=
      (Abreast.release (.refl _) _ _).andThen fun _ _ _ => .pure rfl rfl rfl
    rw [hsplit]
    exact hrest

/-- Code that is not recognised is run in both runs. -/
theorem done_unrecognised {c : CellId} {a : Code} {args : List Value}
    (ha : w.store.code? (.ref c) = some a) (hnone : κ a = none)
    (hargs : ∀ o ∈ ownedByAll args, w.store.present o) (hw : World.Abreast κ K G P f g w v) :
    DoneAlike κ K G (fun u => holding u.owned) f g
      (Build.ofHost (callCode interpret c args) w)
      (Build.ofHost (callCode interpret c args) v) := by
  have hc : G c = none := by
    rw [← hw.parallel.generators, Store.generators, ha]
    exact hnone
  have hb : v.store.code? (.ref c) = some a := (hw.parallel.code?_eq hc).symm.trans ha
  have hnext : World.Abreast κ K G P f g
      (w.onStore (·.setReferent c (.code { a with runs := a.runs + 1 })))
      (v.onStore (·.setReferent c (.code { a with runs := a.runs + 1 }))) := by
    rw [← zero_add f, ← zero_add g] at hw ⊢
    refine hw.withStore (hw.store.setReferent (Store.referent?_of_code? ha) _ ?_ ?_ fun x =>
      Nat.le_refl _)
    · rintro b ⟨⟩
      exact hnone
    · rintro b ⟨⟩
      exact (h.runs a _).trans hnone
  rw [Build.ofHost_apply, callCode_of_code ha, Build.ofHost_apply, callCode_of_code hb,
    ← Build.ofHost_apply, ← Build.ofHost_apply, Build.ofHost_bind]
  refine Done.bind (h.routine a.routine a.runs args (fun o ho => ?_) hnext) fun _ _ vs us hvs => ?_
  · exact Store.present_setReferent.trans (hargs o ho)
  · obtain rfl := hvs
    exact first vs

/-- Code that is called in both runs answers the same. -/
theorem done_callCode (c : CellId) {args : List Value}
    (hargs : ∀ o ∈ ownedByAll args, w.store.present o) (hw : World.Abreast κ K G P f g w v) :
    DoneAlike κ K G (fun u => holding u.owned) f g
      (Build.ofHost (callCode interpret c args) w)
      (Build.ofHost (callCode interpret c args) v) := by
  cases hw.parallel.callee (.ref c) with
  | @recognised _ a b _ _ ha hb hka hkb =>
    have hleft := h.callCode_of_generator (Store.code?_of_referent? ha) hka args
    have hright := h.callCode_of_generator (Store.code?_of_referent? hb) hkb args
    rw [Build.ofHost_eq_ok.2 hleft, Build.ofHost_eq_ok.2 hright]
    have hcalled := hw.store.recall_left ha hka ((h.runs a (a.runs + 1)).trans hka)
    exact hw.produced id (fun _ => rfl) (hcalled.recall_right hb hkb ((h.runs b _).trans hkb))
  | none hs ht =>
    rw [Build.ofHost_apply, callCode_of_no_code hs, Build.ofHost_apply, callCode_of_no_code ht]
    exact .halt _
  | unrecognised ha _ hnone => exact h.done_unrecognised ha hnone hargs hw

/-! ## Metaobjects -/

omit h in
/-- A metaobject is told to answer in another way, in both runs. -/
theorem setBehavior {c : CellId} {o : Object} {method : String} {b : Behavior}
    (ho : w.objectIn? c = some o)
    (hw : World.Abreast κ K G P (holding b.owned + f) (holding b.owned + g) w v) :
    World.Abreast κ K G P f g (w.setBehavior c method b) (v.setBehavior c method b) := by
  let changed := o.withBehaviors (putNamed method b o.behaviors)
  have hset {u : World} (hu : u.objectIn? c = some o) : u.setBehavior c method b =
      (u.onStore (·.setReferent c (.object changed))).onStore
        (·.release (o.behaviors.ownedBy method)) := by
    rw [World.setBehavior, hu]
    exact congrArg _ (modifyObject_of_some hu _)
  rw [hset ho, hset ((hw.parallel.object?_eq (.ref c)).symm.trans ho)]
  refine hw.withStore (Store.Abreast.release (.refl _) ?_)
  refine hw.store.setReferent (World.objectIn?_eq_some.1 ho) _ (by simp) (by simp) fun x => ?_
  cases o with
  | attributeMeta bs | instanceMeta _ bs => exact Nat.le_of_eq (holding_putNamed method b bs x)
  | _ => exact Nat.le_add_right _ _

omit h in
/-- The same reply is read off both worlds, and shared. -/
theorem done_share (hw : World.Abreast κ K G P f g w v)
    {x y : ExceptT HostError Action (List Value)} (reply : Except HostError (List Value))
    (hr : w.Hands reply) (hx : x w = .ok (w.share reply)) (hy : y v = .ok (v.share reply)) :
    DoneAlike κ K G (fun vs => holding (ownedByAll vs)) f g
      (Build.ofHost x w) (Build.ofHost y v) := by
  obtain ⟨_, -, hleft, -⟩ := hw.covers
  have hshared := hw.retain (hleft.present_of_hands hr)
  rw [Build.ofHost_apply, Build.ofHost_apply, hx, hy]
  cases reply with
  | ok vs => exact .ok le_rfl rfl hshared
  | error e => exact .error le_rfl hshared

/-- A metaobject answers by a behaviour. -/
theorem done_runBehavior {c : CellId} {o : Object} {method : String} {b : Behavior}
    (hw : World.Abreast κ K G P f g w v) (ho : w.objectIn? c = some o)
    (hb : o.behaviors.lookup method = some b) :
    DoneAlike κ K G (fun vs => holding (ownedByAll vs)) f g
      (Build.ofHost (runBehavior interpret c method b) w)
      (Build.ofHost (runBehavior interpret c method b) v) := by
  cases b with
  | reply vs => exact done_share hw _ (hands_behaviorReply ho hb rfl) rfl rfl
  | fail message => exact done_share hw _ (hands_behaviorReply ho hb rfl) rfl rfl
  | hook routine runs =>
    rw [← zero_add f, ← zero_add g] at hw
    exact h.routine routine runs [] (fun _ ho => (List.not_mem_nil ho).elim) (setBehavior ho hw)

omit h in
/-- A class tells its attributes. -/
theorem done_classAttributes (hw : World.Abreast κ K G P f g w v) (name : String) :
    DoneAlike κ K G (fun vs => holding (ownedByAll vs)) f g
      (Build.ofHost (classAttributes name) w) (Build.ofHost (classAttributes name) v) := by
  have hreply : attributesReply w name = attributesReply v name := by
    have hobject (c : CellId) : w.objectIn? c = v.objectIn? c := hw.parallel.object?_eq (.ref c)
    simp only [attributesReply, World.class?, hw.registry, hobject]
  refine done_share hw _ (hands_attributesReply name) (classAttributes_plain name w) ?_
  rw [hreply]
  exact classAttributes_plain name v

/-- A method of the registry is called. -/
theorem done_callRegistered {c : CellId} (hc : w.store.alive c) (method : String)
    (hw : World.Abreast κ K G P f g w v) :
    DoneAlike κ K G (fun vs => holding (ownedByAll vs)) f g
      (Build.ofHost (callRegistered interpret c method) w)
      (Build.ofHost (callRegistered interpret c method) v) := by
  cases hd : w.registry.methods.lookup method with
  | none =>
    refine done_share hw (.error ⟨noMethodMessage method (w.store.cellText c), .undef⟩)
      rfl ?_ ?_
    · rw [callRegistered_apply, hd]
      rfl
    · rw [callRegistered_apply, ← hw.registry, hd, hw.parallel.cellText_eq]
      rfl
  | some d =>
    have hcalled {u : World} (hu : u.registry.methods.lookup method = some d) :
        Build.ofHost (callRegistered interpret c method) u =
          (Build.guarding [.cell d] (Build.ofHost (callCode interpret d [.ref c])) >>= fun a =>
            Action.release [.cell d] >>= fun _ => pure [a]) (u.onStore (·.retain [.cell d])) := by
      have hretained : Build.ofHost (callRegistered interpret c method) u = Build.ofHost (do
          let a ← tryCatch (callCode interpret d [.ref c]) fun e => do
            Action.release [.cell d]
            throw e
          Action.release [.cell d]
          return [a]) (u.onStore (·.retain [.cell d])) := by
        rw [Build.ofHost_apply, callRegistered_apply, hu, Build.ofHost_apply]
        rfl
      rw [hretained, Build.ofHost_bind, Build.ofHost_tryCatch]
      rfl
    -- the method lives until it has answered
    obtain ⟨_, -, hleft, -⟩ := hw.covers
    have hkept := hw.retain fun o (ho : o ∈ [Owned.cell d]) => by
      rw [List.mem_singleton.1 ho]
      exact hleft.alive_of_method hd
    have hthere : ∀ o ∈ ownedByAll [.ref c], (w.store.retain [.cell d]).present o := fun o ho => by
      rw [List.mem_singleton.1 ho]
      exact Store.present_retainOne (o := .cell d) (p := .cell c) hc
    have hanswer := (h.done_callCode d hthere hkept).guarding (.refl _)
    rw [hcalled hd, hcalled (hw.registry ▸ hd)]
    refine hanswer.bind fun _ _ a b hab => ?_
    obtain rfl := hab
    have hone : holding (ownedByAll [a]) = holding a.owned := by rw [ownedByAll_singleton]
    rw [add_comm]
    exact (Abreast.release (.refl _) _ _).andThen fun _ _ _ => .pure rfl hone.symm hone.symm

/-- A method that is called in both runs answers the same. -/
theorem done_callMethod {invocant : Value} (method : String)
    (hthere : ∀ o ∈ invocant.owned, w.store.present o) (hw : World.Abreast κ K G P f g w v) :
    DoneAlike κ K G (fun vs => holding (ownedByAll vs)) f g
      (Build.ofHost (callMethod interpret invocant method) w)
      (Build.ofHost (callMethod interpret invocant method) v) := by
  have hcounted : World.Abreast κ K G P f g w.countCall v.countCall :=
    { hw with registry := by rw [World.countCall, World.countCall, hw.registry] }
  cases invocant with
  | ref c =>
    have hobject : v.objectIn? c = w.objectIn? c := (hw.parallel.object?_eq (.ref c)).symm
    have hregistered := h.done_callRegistered (w := w.countCall)
      (hthere _ (List.mem_singleton.2 rfl)) method hcounted
    rw [Build.ofHost_apply, callMethod_ref_apply, Build.ofHost_apply, callMethod_ref_apply, hobject,
      ← Build.ofHost_apply, ← Build.ofHost_apply]
    cases ho : w.objectIn? c with
    | none => exact hregistered
    | some o =>
      rw [Option.bind_some]
      cases hb : o.behaviors.lookup method with
      | some b => exact h.done_runBehavior hcounted ho hb
      | none =>
        cases o with
        | instanceMeta name bs =>
          dsimp only
          split
          · have hhands : w.countCall.Hands (.ok [.str name]) := fun x hx => by
              rw [List.mem_singleton.1 hx]
              exact ⟨c, _, ho, fun _ hp => nomatch hp⟩
            exact done_share hcounted _ hhands rfl rfl
          · split
            · exact done_classAttributes hcounted name
            · exact hregistered
        | _ => exact hregistered
  | _ =>
    show Done κ K G Equal _ _ f g (Build.ofHost (hostFail _) w.countCall)
      (Build.ofHost (hostFail _) v.countCall)
    exact done_share hcounted (.error ⟨notReferenceMessage method, .undef⟩) rfl rfl rfl

/-- The host of a script does the same in both runs, if its code does. -/
theorem neutral_scriptedHost : (scriptedHost interpret).Neutral κ where
  callMethod _ := h.done_callMethod
  callCode _ := h.done_unrecognised

end Interpreter.Neutral

end Script

end MetaCache
