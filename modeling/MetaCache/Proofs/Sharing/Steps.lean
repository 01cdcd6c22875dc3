import MetaCache.Proofs.Sharing.Compilation
import MetaCache.Proofs.Sharing.Results
import MetaCache.Script.Step
/-!
# Steps in twin worlds

Each step of a script does the same in twin worlds and answers alike. Four of them may answer
differently: the one that compares keys, the one that counts the owners of what a variable holds,
the one that asks the key table for many names, and the one that reads the settings.

* `agree_compareKeys`, `agree_countsOf`, `agree_internMany`: the steps that tell whether names are
  shared.
* `agree_step`: all steps.
-/

namespace MetaCache.Script

open MetaCache.Action (Agree Blind)

variable {g : Namings} {host : Host} (hh : host.Blind) (args : List Value)

/-- Answers to a step of that name. -/
def Answers (step : String) : Namings → Answer → Answer → Prop := fun _ => Answer.Alike step

theorem agree_answers {x : Action Answer} (h : Blind x) (step : String) :
    Agree g (Answers step) x x :=
  (h g).imp fun _ a _ hab => hab ▸ .same a

/-! ## Values and variables -/

theorem blind_assign (name : String) (e : Expr) : Blind (assign args name e) :=
  (blind_eval args e).bind fun v => blind_keepValue (some name) v

theorem blind_unbind (name : String) : Blind (modifyGet (World.unbind name)) :=
  .change fun hw => hw.unbind name

theorem blind_dropVariable (name : String) : Blind (dropVariable name) :=
  (blind_unbind name).bind fun _ => .pure _

/-- A value looked at under some view. -/
theorem blind_shown {α : Type} (e : Expr) {f : Value → World → α} (k : α → Answer)
    (hf : ∀ {g w v}, World.Twin g w v → ∀ a, f a w = f a v) :
    Blind (withValue args e fun a => return k (← look (f a))) :=
  blind_withValue args e fun a => (blind_look fun hw => hf hw a).bind fun _ => .pure _

theorem blind_compareValues (a b : Expr) : Blind (compareValues args a b) :=
  blind_withValue args a fun _ => blind_withValue args b fun _ => .pure _

theorem agree_countsOf (name : String) :
    Agree g (Answers "counts") (countsOf name) (countsOf name) := by
  refine .get_bind fun w v hw => ?_
  refine (Action.agree_binding name).bind fun g' _ b c hbc => ?_
  cases hbc with
  | value a =>
    cases a with
    | ref c =>
      dsimp only
      rw [hw.store.strongCount_eq, hw.store.weakCount_eq]
      exact .pure (.same _)
    | weak c =>
      dsimp only
      rw [hw.store.alive_eq]
      exact .pure (.same _)
    | _ => exact .refuse _
  | descriptor p | shadow p =>
    dsimp only
    rw [hw.store.payloadCount_eq, hw.store.weakPayloadCount_eq]
    exact .pure (.same _)
  | weakHandle p =>
    dsimp only
    rw [hw.store.payloads.contains_eq]
    exact .pure (.same _)
  | key _ => exact .pure (.owners _ _ rfl)
  | record _ => exact .refuse _

theorem blind_pointsTo (weak target : Expr) : Blind (pointsTo args weak target) := by
  refine blind_withValue args weak fun v => blind_withCell args target fun c => ?_
  cases v with
  | weak d => exact .pure _
  | _ => exact .refuse _

theorem blind_downgrade (name target : String) : Blind (downgrade name target) := by
  refine fun g => (Action.agree_binding name).bind fun g' _ b c hbc => ?_
  cases hbc with
  | descriptor p | shadow p =>
    refine (Agree.retain (.cons (.weakPayload p) .nil)).bind fun g₁ _ _ _ _ => ?_
    exact (Action.Relates.modify fun w v hw => hw.bind target (.weakHandle p)).bind
      fun _ _ _ _ _ => .pure rfl
  | _ => exact .refuse _

theorem blind_textsOf (name : String) : Blind (textsOf name) := by
  refine fun g => .get_bind fun w v hw => ?_
  refine (Action.agree_binding name).bind fun g₁ h₁ b c hbc => ?_
  cases hbc with
  | value a =>
    dsimp only
    rw [hw.store.valueText_eq]
    exact .pure rfl
  | key hk =>
    dsimp only
    rw [hk.shown_eq, hk.text]
    exact .pure rfl
  | descriptor p | shadow p =>
    refine (Action.agree_payload p).bind fun g₂ h₂ p q hpq => ?_
    cases hpq with
    | tag _ => exact .refuse _
    | descriptor hd => exact .pure (congrArg Answer.text (hw.store.descriptor_shown_eq hd))
    | shadow hs => exact .pure (congrArg Answer.text (hw.store.shadow_shown_eq hs))
  | _ => exact .refuse _

theorem blind_areSame (a b : String) : Blind (areSame a b) := by
  refine fun g => (Action.agree_binding a).bind fun g₁ _ x x' hx => ?_
  refine (Action.agree_binding b).bind fun g₂ _ y y' hy => ?_
  cases hx with
  | value a =>
    cases a with
    | ref c =>
      cases hy with
      | value b => cases b <;> exact .pure rfl
      | _ => exact .pure rfl
    | _ => exact .pure rfl
  | _ => cases hy <;> exact .pure rfl

include hh in
theorem blind_callValue (code : Expr) (arguments : List Expr) (name : Option String) :
    Blind (callValue host args code arguments name) := by
  refine blind_withValue args code fun f => blind_withValues args arguments fun vs g => ?_
  refine .readStore_bind fun s t hs => ?_
  rw [hs.code?_eq]
  split
  · exact blind_answeringHost (hh.callCode _ vs) (blind_keepValue name) g
  · exact .pure rfl

theorem blind_produce (kind : ContainerKind) (name : Option String) :
    Blind (produce kind name) := by
  exact (Blind.withStore fun hs => hs.produce kind).bind fun v => blind_keepDump name v

/-! ## Keys -/

section

variable {α β : Type} {P : α → β → Prop}

/-- A computation on the key that an expression for a slot means, which is of the same text in both
runs. -/
theorem agree_withKey (e : SlotExpr) {k : Key → Action α} {k' : Key → Action β}
    (hk : ∀ g', g ≤ g' → ∀ a b, Key.Twin g' a b → Agree g' (fun _ => P) (k a) (k' b)) :
    Agree g (fun _ => P) (withKey e k) (withKey e k') := by
  have hrest (g' : Namings) (hg : g ≤ g') (a b : Key) (hab : a.Twin g' b) :
      Agree g' (fun _ => P) (do let x ← k a; Action.release a.owned; return x)
        (do let x ← k' b; Action.release b.owned; return x) := by
    refine (hk g' hg a b hab).bind fun _ _ x y hxy => ?_
    exact (Agree.release (Owned.twins_key a b)).bind fun _ _ _ _ _ => .pure hxy
  cases e with
  | named name => exact (agree_freshKey name).bind hrest
  | keyIn var =>
    refine (Action.agree_keyIn var).bind fun g₁ h₁ a b hab => ?_
    refine (Agree.retain (Owned.twins_key a b)).bind fun g₂ h₂ _ _ _ => ?_
    exact hrest g₂ (h₁.trans h₂) a b (hab.mono h₂)
  | descriptorIn var =>
    refine (Action.agree_descriptorIn var).bind fun g₁ h₁ a b hab => ?_
    refine (Agree.retain (Owned.twins_key a.2.slot b.2.slot)).bind fun g₂ h₂ _ _ _ => ?_
    exact hrest g₂ (h₁.trans h₂) a.2.slot b.2.slot (hab.2.slot.mono h₂)

end

theorem blind_makeKey (origin : KeyOrigin) (name : Expr) (target : Option String) :
    Blind (makeKey args origin name target) := by
  refine blind_withValue args name fun v g => ?_
  cases v.text? with
  | none => exact .refuse _
  | some text =>
    cases origin with
    | cache => exact (agree_key text).bind fun _ _ _ _ hk => agree_keepKey target hk
    | table => exact (agree_interned text).bind fun _ _ _ _ hk => agree_keepKey target hk
    | unshared => exact (agree_freshKey text).bind fun _ _ _ _ hk => agree_keepKey target hk

theorem blind_shareKey (var : String) (target : Option String) : Blind (shareKey var target) := by
  refine fun g => (Action.agree_keyIn var).bind fun g₁ h₁ k l hk => ?_
  refine (Agree.retain (Owned.twins_key k l)).bind fun g₂ h₂ _ _ _ => ?_
  refine .get_bind fun w v hw => ?_
  rw [hw.cache.hash, hw.cache.hash']
  have hk := hk.mono h₂
  exact agree_keepKey target ⟨⟨hk.left.known, rfl⟩, ⟨hk.right.known, rfl⟩, hk.text⟩

theorem agree_compareKeys (step : String) (a b : SlotExpr) :
    Agree g (Answers step) (compareKeys a b) (compareKeys a b) := by
  refine agree_withKey a fun g₁ _ x x' hx => agree_withKey b fun g₂ h₂ y y' hy => .pure ?_
  have hx := hx.mono h₂
  rw [hx.sameSlot_eq hy, hx.hash, hy.hash]
  exact .compared _ _ _ _

theorem agree_internEach (keep : Bool) (names : List String) :
    Agree g (fun _ ms ns => ms.length = ns.length) (internEach keep names)
      (internEach keep names) := by
  induction names generalizing g with
  | nil => exact .pure rfl
  | cons name rest ih =>
    refine (agree_interned name).bind fun g₁ _ k l hk => .get_bind fun w v _ => ?_
    refine (Action.agree_keep _ (.key hk)).bind fun g₂ _ _ _ _ => ?_
    exact ih.bind fun _ _ ms ns hlength => .pure (congrArg (· + 1) hlength)

theorem blind_dropEach (names : List String) : Blind (dropEach names) := by
  induction names with
  | nil => exact .pure _
  | cons name rest ih => exact (blind_unbind name).bind fun _ => ih

theorem agree_internMany (step stem : String) (first count : Nat) (keep : Bool) :
    Agree g (Answers step) (internMany stem first count keep) (internMany stem first count keep) :=
  (agree_internEach keep _).bind fun _ _ _ _ hlength => .pure (.tracked hlength)

theorem blind_dropMany (stem : String) (first count : Nat) : Blind (dropMany stem first count) :=
  (blind_dropEach _).bind fun _ => .pure _

theorem blind_purge : Blind purge :=
  fun _ => (Action.Relates.modify fun _ _ hw => hw.sweepKeys).bind fun _ _ _ _ _ => .pure rfl

/-! ## Classes and methods -/

theorem blind_defineClass (name : String) (attributes : List Expr) (target : Option String) :
    Blind (defineClass args name attributes target) := by
  refine (blind_evalAll args attributes).bind fun attrs => ?_
  exact (Blind.change fun hw => hw.defineClass name attrs).bind fun c =>
    blind_keepDump target (.ref c)

theorem blind_withClass {α : Type} (e : Expr) {k : CellId → Action α} (hk : ∀ c, Blind (k c)) :
    Blind (withClass args e k) := by
  refine blind_withCell args e fun c g => .get_bind fun w v hw => ?_
  rw [hw.objectIn?_eq]
  split
  · exact hk c g
  · exact .refuse _

theorem blind_lookAtClass (c : CellId) :
    Blind (do return .dump (← look (·.dump 1 (.ref c))) : Action Answer) :=
  (blind_look fun hw => hw.dump_eq 1 (.ref c)).bind fun _ => .pure _

theorem blind_pushAttribute (cls attr : Expr) : Blind (pushAttribute args cls attr) := by
  refine blind_withClass args cls fun c => (blind_eval args attr).bind fun v => ?_
  exact (Blind.modify fun hw => hw.pushAttribute c v).bind fun _ => blind_lookAtClass c

theorem blind_setAttributes (cls : Expr) (attributes : List Expr) :
    Blind (setAttributes args cls attributes) := by
  refine blind_withClass args cls fun c => (blind_evalAll args attributes).bind fun vs => ?_
  exact (Blind.modify fun hw => hw.setAttributes c vs).bind fun _ => blind_lookAtClass c

theorem blind_countUp (c : CellId) :
    Blind (do return .number (← modifyGet (World.bumpClass c)) : Action Answer) :=
  (Blind.change fun hw => hw.bumpClass c).bind fun _ => .pure _

theorem blind_bumpClass (cls : Expr) : Blind (bumpClass args cls) :=
  blind_withClass args cls blind_countUp

theorem blind_bump (name : String) : Blind (bump name) := by
  refine fun g => .get_bind fun w v hw => ?_
  rw [hw.class?_eq]
  cases v.class? name with
  | none => exact .pure rfl
  | some c => exact blind_countUp c g

theorem blind_removeClass (name : String) : Blind (removeClass name) := by
  refine (Blind.change fun hw => hw.removeClass name).bind fun removed => ?_
  cases removed with
  | none => exact .pure _
  | some c =>
    refine (blind_look fun hw => hw.viewCell_eq c).bind fun view => ?_
    exact (Blind.release fun _ => .cons (.cell c) .nil).bind fun _ => .pure _

theorem blind_defineMethod (name : String) (routine : Routine) :
    Blind (defineMethod name routine) := by
  refine (Blind.withStore fun hs => hs.newCell (.code _)).bind fun c => ?_
  exact (Blind.modify fun hw => hw.defineMethod name c).bind fun _ => .pure _

theorem blind_setMethod (target : Expr) (method : String) (behavior : BehaviorExpr) :
    Blind (setMethod args target method behavior) := by
  refine blind_withCell args target fun c => (blind_evalBehavior args behavior).bind fun b g => ?_
  refine .get_bind fun w v hw => ?_
  rw [hw.objectIn?_eq]
  split
  · exact (Action.Relates.modify fun _ _ hw => hw.setBehavior c method b).bind
      fun _ _ _ _ _ => .pure rfl
  · exact .refuse _

section

include hh

theorem blind_resolveClass (name : String) : Blind (resolveClass host name) := by
  refine fun g => .get_bind fun w v hw => .pure ?_
  have hcell : w.viewCell = v.viewCell := funext hw.viewCell_eq
  rw [hh.class? hw, hcell]
  rfl

theorem blind_classGeneration (cls : Expr) : Blind (classGeneration host args cls) := by
  refine blind_withCell args cls fun c g => .get_bind fun w v hw => .pure ?_
  rw [hh.generation hw]
  rfl

theorem blind_derivedFrom (e : Expr) (className : String) :
    Blind (derivedFrom host args e className) := by
  refine blind_withValue args e fun a g => .get_bind fun w v hw => .pure ?_
  rw [hh.derivesFrom hw]
  rfl

theorem blind_callMethodOf (invocant : Expr) (method : String) :
    Blind (callMethodOf host args invocant method) := by
  refine blind_withValue args invocant fun v => ?_
  refine blind_answeringHost (hh.callMethod v method) fun reply => ?_
  refine (blind_look fun hw => congrArg (reply.map ·) hw.view_funext).bind fun views => ?_
  exact (Blind.release fun _ => Owned.twins_values reply).bind fun _ => .pure _

end

/-! ## Slots -/

theorem blind_policyOf (which : StorageExpr) : Blind (policyOf which) := by
  have hcache : Blind (do return (← get).cache.config.weakenPolicy : Action WeakenPolicy) :=
    fun g => .get_bind fun _ _ hw => .pure hw.cache.config.weakenPolicy
  cases which with
  | ofCache => exact hcache
  | ofShadow var =>
    exact fun g => (Action.agree_shadowIn var).bind fun g' _ _ _ _ => hcache g'
  | withPolicy policy => exact .pure policy

theorem blind_create : Blind (Action.withStore Storage.create) :=
  .withStore fun hs => hs.create

theorem blind_createStorage (target : Option String) : Blind (createStorage target) :=
  blind_create.bind fun v => blind_keepValue target v

theorem blind_describeStorage (which : StorageExpr) : Blind (describeStorage which) := by
  refine (blind_policyOf which).bind fun policy => blind_create.bind fun v => ?_
  refine (blind_look fun hw => hw.dump_eq 1 v).bind fun view => ?_
  exact (Blind.release fun _ => Owned.twins_value v).bind fun _ => .pure _

/-- A computation on an instance and a key. -/
theorem blind_withSlot {α : Type} (inst : Expr) (slot : SlotExpr) {k : Value → Key → Action α}
    (hk : ∀ g v a b, Key.Twin g a b → Agree g Equal (k v a) (k v b)) :
    Blind (withSlot args inst slot k) :=
  blind_withValue args inst fun v _ => agree_withKey slot fun g' _ a b hab => hk g' v a b hab

theorem blind_askSlot (inst : Expr) (slot : SlotExpr) : Blind (askSlot args inst slot) :=
  blind_withSlot args inst slot fun _ v _ _ hk =>
    agree_answeringStore (fun _ _ hs => hs.has hk v) fun _ => .pure _

theorem blind_readSlot (inst : Expr) (slot : SlotExpr) (target : Option String) :
    Blind (readSlot args inst slot target) :=
  blind_withSlot args inst slot fun _ v _ _ hk =>
    agree_answeringStore (fun _ _ hs => hs.get hk v) (blind_keepSlotValue target)

theorem blind_writeSlot (inst : Expr) (slot : SlotExpr) (value : Expr) (target : Option String) :
    Blind (writeSlot args inst slot value target) :=
  blind_withSlot args inst slot fun _ v _ _ hk =>
    (blind_eval args value _).andThen fun _ hg content =>
      agree_answeringStore (fun _ _ hs => hs.set (hk.mono hg) v content) (blind_keepValue target)

theorem blind_removeSlot (inst : Expr) (slot : SlotExpr) (target : Option String) :
    Blind (removeSlot args inst slot target) :=
  blind_withSlot args inst slot fun _ v _ _ hk =>
    agree_answeringStore (fun _ _ hs => hs.delete hk v) (blind_keepSlotValue target)

theorem blind_weakenSlot (inst : Expr) (slot : SlotExpr) (which : StorageExpr) :
    Blind (weakenSlot args inst slot which) :=
  blind_withSlot args inst slot fun _ v _ _ hk =>
    (blind_policyOf which _).andThen fun _ hg policy =>
      agree_answeringStore (fun _ _ hs => hs.weaken (hk.mono hg) policy v) fun _ => .pure _

/-! ## Extension slots -/

theorem blind_askExtension (target : Expr) : Blind (askExtension args target) := by
  refine blind_withCell args target fun c g => .get_bind fun w v hw => .pure ?_
  have hcopy : w.viewCopy = v.viewCopy := funext hw.viewCopy_eq
  rw [hw.store.extension?_eq, hcopy]
  rfl

/-- Whatever is put into the extension slot of a cell, what was in it is answered. -/
theorem blind_exchange (c : CellId) (r : Option Record) (name : Option String) :
    Blind (exchange c r name) := by
  refine fun g => .readStore_bind fun s t hs => ?_
  rw [hs.extension?_eq]
  refine (Agree.onStore fun _ _ hs => hs.setExtension c r).bind fun g' _ _ _ _ => ?_
  exact blind_keepRecord name _ g'

theorem blind_attach (target : Expr) {payload : Action PayloadId} (hp : Blind payload)
    (generation : Nat) (governor : Expr) (name : Option String) :
    Blind (attach args target payload generation governor name) := by
  refine blind_withCell args target fun c => blind_withCell args governor fun h => ?_
  refine hp.bind fun p => (Blind.retain fun _ => .cons (.weakCell h) .nil).bind fun _ => ?_
  exact blind_exchange c _ name

theorem blind_newTag (tag : String) : Blind (newTag tag) :=
  .withStore fun hs => hs.newPayload (.tag tag)

theorem blind_sharedIn (var : String) : Blind (sharedIn var) := by
  refine fun g => (Action.agree_binding var).bind fun g' _ b c hbc => ?_
  cases hbc with
  | descriptor p | shadow p =>
    exact (Agree.retain (.cons (.payload p) .nil)).bind fun _ _ _ _ _ => .pure rfl
  | _ => exact .refuse _

theorem blind_detach (target : Expr) (name : Option String) : Blind (detach args target name) :=
  blind_withCell args target fun c => blind_exchange c none name

theorem blind_askRecord (var : String) : Blind (askRecord var) := by
  refine fun g => (Action.agree_binding var).bind fun g' _ b c hbc => ?_
  cases hbc with
  | record r => exact ((blind_look fun hw => hw.viewCopy_eq r).bind fun _ => .pure _) g'
  | _ => exact .refuse _

/-! ## Descriptors and shadows -/

section

include hh

theorem blind_compileDescriptor (attr : Expr) (target : Option String) :
    Blind (compileDescriptor host args attr target) :=
  blind_withValue args attr fun v _ => agree_answering (Descriptor.agree_compile hh v)
    fun _ _ _ _ hd => agree_keepCompiled target (.descriptor hd)

theorem blind_compileShadow (inst : Expr) (target : Option String) :
    Blind (compileShadow host args inst target) :=
  blind_withValue args inst fun v _ => agree_answering (Shadow.agree_compile hh v)
    fun _ _ _ _ hs => agree_keepCompiled target (.shadow hs)

theorem blind_lookUpDescriptor (attr cls : Expr) (target : Option String) :
    Blind (lookUpDescriptor host args attr cls target) :=
  blind_withValue args attr fun v => blind_withCell args cls fun c =>
    blind_answering (blind_descriptorFor hh v c) (blind_keepPayload target)

theorem blind_lookUpShadow (inst : Expr) (target : Option String) :
    Blind (lookUpShadow host args inst target) :=
  blind_withValue args inst fun v =>
    blind_answering (blind_shadowFor hh v) (blind_keepPayload target)

end

theorem blind_askDescriptor (var : String) : Blind (askDescriptor var) := by
  refine fun g => (Action.agree_descriptorIn var).bind fun g' _ a b hab => ?_
  refine (agree_look fun w v hw => hw.viewDescriptor_eq hab.2).bind fun _ _ _ _ hview => ?_
  exact .pure (congrArg Answer.descriptor hview)

theorem blind_askShadow (var : String) : Blind (askShadow var) := by
  refine fun g => (Action.agree_shadowIn var).bind fun g' _ a b hab => ?_
  refine (agree_look fun w v hw => hw.viewShadowInfo_eq hab.2).bind fun _ _ _ _ hview => ?_
  exact .pure (congrArg Answer.shadowInfo hview)

theorem blind_makeShadow (className : String) (cls : Expr) (generation : Nat)
    (target : Option String) : Blind (makeShadow args className cls generation target) := by
  refine blind_withCell args cls fun c => ?_
  refine (Blind.retain fun _ => .cons (.cell c) .nil).bind fun _ _ => ?_
  exact agree_keepCompiled target (.shadow ⟨rfl, rfl, rfl, rfl, .nil⟩)

theorem blind_appendDescriptor (shadow descriptor : String) :
    Blind (appendDescriptor shadow descriptor) := by
  refine fun g => (Action.agree_shadowIn shadow).bind fun g₁ _ a a' ha => ?_
  refine (Action.agree_descriptorIn descriptor).bind fun g₂ h₂ b b' hb => ?_
  obtain ⟨p, s⟩ := a
  obtain ⟨_, s'⟩ := a'
  obtain ⟨rfl, hs⟩ := ha
  obtain ⟨q, d⟩ := b
  obtain ⟨_, d'⟩ := b'
  obtain ⟨rfl, hd⟩ := hb
  have happended : (s.append d).Twin g₂ (s'.append d') := (hs.mono h₂).append hd
  refine .get_bind fun w v hw => ?_
  dsimp only
  rw [hw.store.payloadCount_eq, hw.store.payloadCount_eq, happended.view_eq]
  split
  · refine (Action.Relates.modify fun _ _ hw => hw.erase descriptor).bind fun g₃ h₃ _ _ _ => ?_
    have hmoved := Payload.Twin.shadow (happended.mono h₃)
    exact (Agree.onStore fun _ _ hst => (hst.takePayload q).setPayload p hmoved).bind
      fun _ _ _ _ _ => .pure rfl
  · exact .refuse _

/-! ## Searches and the values of attributes -/

theorem agree_answerSearch (position : Option Nat) {d e : Option Descriptor}
    (h : Option.Rel (Descriptor.Twin g) d e) :
    Agree g Equal (answerSearch position d) (answerSearch position e) := by
  refine .get_bind fun w v hw => .pure ?_
  rw [map_eq_of_rel h fun _ _ hd => hw.viewDescriptor_eq hd]
  rfl

theorem blind_search (var name : String) : Blind (search var name) := by
  refine fun g => (Action.agree_shadowIn var).bind fun g' _ a b hab => .get_bind fun w v hw => ?_
  dsimp only
  rw [hw.cache.hash, hw.cache.hash', hab.2.index?_eq]
  exact agree_answerSearch _ (hab.2.find? _ name)

theorem blind_searchInitArg (var name : String) : Blind (searchInitArg var name) := by
  refine fun g => (Action.agree_shadowIn var).bind fun g' _ a b hab => .get_bind fun w v hw => ?_
  dsimp only
  rw [hw.cache.hash, hw.cache.hash', hab.2.initArgIndex?_eq]
  exact agree_answerSearch _ (hab.2.findInitArg? _ name)

theorem agree_findDescriptor (e : DescriptorExpr) :
    Agree g (fun g a b => a.1 = b.1 ∧ a.2.Twin g b.2) (findDescriptor e) (findDescriptor e) := by
  cases e with
  | inVariable var => exact Action.agree_descriptorIn var
  | ofShadow var slot =>
    refine (Action.agree_shadowIn var).bind fun g' _ a b hab => .get_bind fun w v hw => ?_
    rw [hw.cache.hash, hw.cache.hash']
    rcases rel_cases (hab.2.find? Text.nameHash slot) with ⟨hs, ht⟩ | ⟨_, _, hs, ht, hd⟩
    · rw [hs, ht]
      exact .refuse _
    · rw [hs, ht]
      exact .pure ⟨hab.1, hd⟩

include hh in
theorem blind_askInitialValue (e : DescriptorExpr) (inst : Expr) (target : Option String) :
    Blind (askInitialValue host args e inst target) := by
  refine fun g => (agree_findDescriptor e).bind fun g₁ h₁ a b hab => ?_
  obtain ⟨p, d⟩ := a
  obtain ⟨_, d'⟩ := b
  obtain ⟨rfl, hd⟩ := hab
  have hhandle (g : Namings) : Owned.Twins g [.payload p] [.payload p] := .cons (.payload p) .nil
  refine (Agree.retain (hhandle g₁)).bind fun g₂ h₂ _ _ _ => ?_
  have hvalue : Agree g₂ (fun _ r q => r = q)
      (withValue args inst fun v => (Descriptor.initialValue host d v).run)
      (withValue args inst fun v => (Descriptor.initialValue host d' v).run) := by
    refine agree_withValue args inst fun g' hg v => ?_
    refine ((hd.mono (h₂.trans hg)).agree_initialValue hh v).imp fun _ r q hrq => ?_
    cases hrq with
    | ok hv => exact congrArg Except.ok hv
    | error e => rfl
  refine hvalue.bind fun g₃ _ r _ hr => ?_
  subst hr
  refine (Agree.release (hhandle g₃)).bind fun g₄ _ _ _ _ => ?_
  cases r with
  | error e => exact blind_failed e g₄
  | ok v =>
    cases v with
    | none => exact .pure rfl
    | some v =>
      refine ((Blind.retain fun _ => Owned.twins_value v).bind fun _ => ?_) g₄
      refine (blind_keep target (.value v) fun _ => .value v).bind fun _ => ?_
      refine (blind_look fun hw => hw.view_eq v).bind fun view => ?_
      exact (Blind.release fun _ => Owned.twins_value v).bind fun _ => .pure _

theorem blind_invalidateAt (target : Expr) : Blind (invalidateAt args target) := by
  refine blind_withValue args target fun v => ?_
  exact (Blind.change fun hw => hw.invalidate v).bind fun _ => .pure _

/-! ## The cache -/

theorem twin_newCacheOf (c : Config) (classifier : Option (List (String × ContainerKind)))
    {d : Config} (h : c.Alike d) : (newCacheOf c classifier).Twin g (newCacheOf d classifier) :=
  ⟨h, rfl, rfl, rfl, rfl, fun _ hn => (List.not_mem_nil hn).elim,
    fun _ hn => (List.not_mem_nil hn).elim⟩

theorem blind_startCache (config : ConfigExpr)
    (classifier : Option (List (String × ContainerKind))) :
    Blind (startCache config classifier) := by
  unfold startCache
  split
  · exact .pure _
  · rename_i c _
    refine fun g => (Action.Relates.modify fun w v hw => ?_).bind fun _ _ _ _ _ => .pure rfl
    exact { hw with session := { hw.session with
      successor := .some (twin_newCacheOf c classifier rfl) } }

theorem agree_settings (step : String) : Agree g (Answers step)
    (do let c := (← get).cache.config; return .configText c c.shown)
    (do let c := (← get).cache.config; return .configText c c.shown) :=
  .get_bind fun _ _ hw => .pure (.settings hw.cache.config)

theorem blind_stats : Blind (do return .text (← get).cache.stats.shown : Action Answer) := by
  refine fun g => .get_bind fun w v hw => .pure ?_
  rw [hw.cache.stats]
  rfl

/-! ## All steps -/

include hh in
/-- Each step answers alike in twin worlds and leaves twin worlds. -/
theorem agree_step (s : Step) : Agree g (Answers s.name) (s.run host args) (s.run host args) := by
  cases s
  case counts var => exact agree_countsOf var
  case compareKeys a b => exact agree_compareKeys _ a b
  case internMany stem first count keep => exact agree_internMany _ stem first count keep
  case config => exact agree_settings _
  all_goals refine agree_answers ?_ _
  case assign name value => exact blind_assign args name value
  case drop var => exact blind_dropVariable var
  case inspect value =>
    exact blind_shown args value Answer.inspection fun hw => hw.inspect_eq
  case equal a b => exact blind_compareValues args a b
  case pointsTo weak target => exact blind_pointsTo args weak target
  case downgrade var target => exact blind_downgrade var target
  case dump value depth =>
    exact blind_shown args value Answer.dump fun hw => hw.dump_eq depth
  case debug var => exact blind_textsOf var
  case same a b => exact blind_areSame a b
  case call code arguments target => exact blind_callValue hh args code arguments target
  case produce kind target => exact blind_produce kind target
  case key origin name target => exact blind_makeKey args origin name target
  case shareKey var target => exact blind_shareKey var target
  case dropMany stem first count => exact blind_dropMany stem first count
  case purge => exact blind_purge
  case defineClass name attributes target => exact blind_defineClass args name attributes target
  case pushAttribute cls attr => exact blind_pushAttribute args cls attr
  case setAttributes cls attributes => exact blind_setAttributes args cls attributes
  case bumpClass cls => exact blind_bumpClass args cls
  case bump name => exact blind_bump name
  case removeClass name => exact blind_removeClass name
  case resolveClass name => exact blind_resolveClass hh name
  case classGeneration cls => exact blind_classGeneration hh args cls
  case derivedFrom value className => exact blind_derivedFrom hh args value className
  case defineMethod name routine => exact blind_defineMethod name routine
  case callMethod invocant method => exact blind_callMethodOf hh args invocant method
  case setMethod target method behavior => exact blind_setMethod args target method behavior
  case descriptor attr target => exact blind_compileDescriptor hh args attr target
  case descriptorFor attr cls target => exact blind_lookUpDescriptor hh args attr cls target
  case descriptorInfo var => exact blind_askDescriptor var
  case initialValue d inst target => exact blind_askInitialValue hh args d inst target
  case shadow inst target => exact blind_compileShadow hh args inst target
  case shadowFor inst target => exact blind_lookUpShadow hh args inst target
  case newShadow name cls generation target =>
    exact blind_makeShadow args name cls generation target
  case append target d => exact blind_appendDescriptor target d
  case shadowInfo var => exact blind_askShadow var
  case find var name => exact blind_search var name
  case findInitArg var name => exact blind_searchInitArg var name
  case invalidate target => exact blind_invalidateAt args target
  case extension target => exact blind_askExtension args target
  case attachTag target tag generation governor name =>
    exact blind_attach args target (blind_newTag tag) generation governor name
  case attachShared target var generation governor name =>
    exact blind_attach args target (blind_sharedIn var) generation governor name
  case detach target name => exact blind_detach args target name
  case record var => exact blind_askRecord var
  case createStorage target => exact blind_createStorage target
  case storage which => exact blind_describeStorage which
  case hasSlot inst slot _ => exact blind_askSlot args inst slot
  case getSlot inst slot target _ => exact blind_readSlot args inst slot target
  case setSlot inst slot value target _ => exact blind_writeSlot args inst slot value target
  case deleteSlot inst slot target _ => exact blind_removeSlot args inst slot target
  case weakenSlot inst slot which => exact blind_weakenSlot args inst slot which
  case newCache settings classifier => exact blind_startCache settings classifier
  case stats => exact blind_stats

end MetaCache.Script
