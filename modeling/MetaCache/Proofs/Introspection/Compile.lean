import MetaCache.Proofs.Compile.Books
import MetaCache.Proofs.Introspection.Follows
/-!
# Compiling follows its dialogue

What a compilation comes to is what its dialogue comes to with the view of the world in which it
began: the same structure up to the identity of names, the same error, or no end for the same
reason.

* `follows_compile`: attributes.
* `follows_resolve`, `follows_fill`: instance metaobjects.
-/

namespace MetaCache

theorem KeyTable.bare_internInBucket (h : UInt32) (name : String) (bucket : List SharedName)
    (t : KeyTable) (s : Store) :
    (t.internInBucket h name bucket s).1.bare = ⟨⟨0, name⟩, h⟩ := by
  unfold KeyTable.internInBucket
  dsimp only
  split
  · rename_i shared hf
    have htext : shared.text = name := by simpa using List.find?_some hf
    rw [Key.bare, Key.text, htext]
  · rfl

/-- A key has the name that was asked for, and its hash. -/
theorem World.bare_key (w : World) (name : String) :
    (w.key name).1.bare = Protocol.key w.cache.nameHash name := by
  unfold World.key
  split
  · show (w.cache.keys.intern w.cache.nameHash name w.store).1.bare = _
    unfold KeyTable.intern
    dsimp only
    split
    · exact KeyTable.bare_internInBucket _ _ _ _ _
    · rfl
  · rfl

theorem Store.isDefined_of_strong {v : Value} (hv : v.isWeak = false) (s : Store) :
    s.isDefined v = (v != .undef) := by
  cases v with
  | weak c => cases hv
  | _ => rfl

/-! ## Where a compilation branches -/

/-- The initializer that a value is, if it is a reference to code. -/
def Descriptor.initializerOf (v : Value) (code? : Option Code) : Build (Option CellId) :=
  match v, code? with
  | .ref c, some _ => return some c
  | _, _ => Build.failMismatch v .initializerNotCallable

/-- The init-arg that a value is, if it is a defined text. -/
def Protocol.initArgOf (hash : String → UInt32) (v : Value) (isDefined : Bool) :
    Protocol (Option Key) :=
  if isDefined then
    match v.text? with
    | some name => .done (some (Protocol.key hash name))
    | none => Protocol.refuse v .initArgNotText
  else .done none

theorem Shadow.resolve_apply (host : Host) (inst : Value) (w : World) :
    Shadow.resolve host inst w =
      (if host.derivesFrom w inst w.cache.config.instanceBaseClass then do
        let v ← host.askOne inst InstanceQuery.className.method
        match v.text? with
        | some className => Shadow.ofClassName host className
        | none => Build.failMismatch v .classNameNotText
      else do
        let got ← Action.readStore (·.valueText inst)
        throw (.mismatch (.notInstanceMeta got w.cache.config.instanceBaseClass)) : Build Shadow)
        w :=
  rfl

variable {host : Host} {w₀ : World} {k : Holding} (hc : host.Consistent) (ho : host.Orderly)

section

include hc ho

/-! ## Attributes -/

theorem follows_key (name : String) : Follows host w₀ k (modifyGet (World.key name) : Build Key) 0
    (.done (Protocol.key w₀.cache.nameHash name)) Key.bare fun a => holding a.owned := by
  refine .own hc ho (r := fun w => (w.key name).1) (t := fun w => (w.key name).2) (fun _ => rfl)
    (.key · name) (fun w h => ?_) fun w hw => ?_
  · rw [zero_add] at h
    exact h.key name
  · have hhash : w.cache.nameHash = w₀.cache.nameHash := congrArg (·.2.2) hw.settings
    rw [w.bare_key, hhash]

variable (hs : host.Strong w₀) {attr : Value} (hv : attr.Held k)

include hs hv

theorem follows_readSlot : Follows host w₀ k (Descriptor.readSlot host attr) 0
    (Protocol.slot w₀.cache.nameHash attr) Key.bare fun a => holding a.owned := by
  refine .of_covered fun w hw hcov => ?_
  refine (follows_askList hc hv (m := .ofAttribute .slots)).bind fun vs hrun => ?_
  rw [zero_add] at hcov
  have hstrong := strong_of_run hs hw hv hcov (Protocol.run_askList hrun)
  match vs, hstrong with
  | [x], hstrong =>
    rw [ownedByAll_singleton]
    exact follows_text hc ho (hstrong x List.mem_cons_self) fun t => follows_key hc ho t
  | [], _ => exact .failReleasing hc ho _ rfl
  | _ :: _ :: _, _ => exact .failReleasing hc ho _ rfl

omit hc ho in
/-- What an attribute that is held has replied to a question for one value is strong. -/
theorem isWeak_of_askOne {m : Introspection} {a : Value} {w : World} (hw : host.Unmoved w₀ w)
    (hcov : w.Covers k) (h : (Protocol.askOne attr m).run (host.view w₀) = .ok (.ok a)) :
    a.isWeak = false :=
  strong_of_run hs hw hv hcov (Protocol.run_askOne h) a List.mem_cons_self

theorem follows_readInitArg : Follows host w₀ k (Descriptor.readInitArg host attr) 0
    (Protocol.initArg w₀.cache.nameHash attr) (Option.map Key.bare)
    fun a => holding (ownedByKey? a) := by
  refine .of_covered fun w hw hcov => ?_
  refine (follows_askFlag hc ho hs hv (m := .ofAttribute .hasInitArg)).bind fun b _ => ?_
  rw [zero_add] at hcov
  cases b with
  | false => exact .pure rfl rfl
  | true =>
    refine (follows_askOne hc ho hs hv (m := .ofAttribute .initArg)).bind fun v hrun => ?_
    have hweak := isWeak_of_askOne hs hv hw hcov hrun
    have hread : Follows host w₀ k (Action.readStore (·.isDefined v)) (holding v.owned)
        (.done (v != .undef)) id fun _ => holding v.owned :=
      .own hc ho (r := fun w => w.store.isDefined v) (t := fun w => w) (fun _ => rfl) .refl
        (fun _ h => h) fun w _ => Store.isDefined_of_strong hweak w.store
    refine hread.bind (q := Protocol.initArgOf w₀.cache.nameHash v) fun d _ => ?_
    cases d with
    | true =>
      refine follows_text hc ho hweak fun t => ?_
      exact (follows_key hc ho t).bind (q := fun a => .done (some a)) fun a _ => .pure rfl rfl
    | false =>
      exact (Follows.release_all hc ho v.owned).bind (q := fun _ => .done none) fun _ _ =>
        .pure rfl rfl

omit hs hv in
theorem follows_captureDefault {v : Value} (hv : v.isWeak = false) :
    Follows host w₀ k (Descriptor.captureDefault v) (holding v.owned) (Protocol.capture v) id
      fun d => holding d.owned := by
  have hval : Follows host w₀ k (pure (DefaultStrategy.value v)) (holding v.owned)
      (.done (DefaultStrategy.value v)) id fun d => holding d.owned := .pure rfl rfl
  cases v with
  | ref c =>
    refine .ask (fun w hcov => (Value.held_owned hv k).alive hcov) fun w hw hcov =>
      ⟨(w.store.code? (.ref c)).map w.cache.classifier, rfl, ?_⟩
    show Traces host w₀ k id _ (Descriptor.captureDefault (.ref c) w) _
    rw [Descriptor.captureDefault_ref_apply]
    cases w.store.code? (.ref c) with
    | none => exact follows_refuse hc ho hv _ w hw hcov
    | some code =>
      rw [Option.map_some]
      dsimp only
      cases w.cache.classifier code with
      | none => exact hval w hw hcov
      | some kind =>
        have hkind : Follows host w₀ k (pure (DefaultStrategy.container kind)) 0
            (.done (DefaultStrategy.container kind)) id fun d => holding d.owned := .pure rfl rfl
        exact (Follows.release_all hc ho _).bind
          (q := fun _ => .done (DefaultStrategy.container kind)) (fun _ _ => hkind) w hw hcov
  | weak c => cases hv
  | _ => exact hval

theorem follows_readDefault : Follows host w₀ k (Descriptor.readDefault host attr) 0
    (Protocol.default attr) id fun d => holding d.owned := by
  refine .of_covered fun w hw hcov => ?_
  refine (follows_askFlag hc ho hs hv (m := .ofAttribute .hasDefault)).bind fun b _ => ?_
  rw [zero_add] at hcov
  cases b with
  | true =>
    refine (follows_askOne hc ho hs hv (m := .ofAttribute .default)).bind fun v hrun => ?_
    exact follows_captureDefault hc ho (isWeak_of_askOne hs hv hw hcov hrun)
  | false =>
    refine (follows_askFlag hc ho hs hv (m := .ofAttribute .hasBuilder)).bind fun b _ => ?_
    cases b with
    | true =>
      refine (follows_askOne hc ho hs hv (m := .ofAttribute .builder)).bind fun v hrun => ?_
      refine follows_text hc ho (isWeak_of_askOne hs hv hw hcov hrun) fun t => ?_
      exact .pure rfl rfl
    | false => exact .pure rfl rfl

theorem follows_readInitializer : Follows host w₀ k (Descriptor.readInitializer host attr) 0
    (Protocol.initializer attr) id fun a => holding (ownedByCell? a) := by
  refine .of_covered fun w hw hcov => ?_
  refine (follows_askFlag hc ho hs hv (m := .ofAttribute .hasInitializer)).bind fun b _ => ?_
  rw [zero_add] at hcov
  cases b with
  | false => exact .pure rfl rfl
  | true =>
    refine (follows_askOne hc ho hs hv (m := .ofAttribute .initializer)).bind fun v hrun => ?_
    have hweak := isWeak_of_askOne hs hv hw hcov hrun
    cases v with
    | ref c =>
      refine .ask (fun w hcov => (Value.held_owned hweak k).alive hcov) fun w hw hcov =>
        ⟨(w.store.code? (.ref c)).map w.cache.classifier, rfl, ?_⟩
      show Traces host w₀ k id _ (Descriptor.initializerOf (.ref c) (w.store.code? (.ref c)) w) _
      cases w.store.code? (.ref c) with
      | some _ => exact Follows.pure rfl rfl w hw hcov
      | none => exact follows_refuse hc ho hweak _ w hw hcov
    | weak c => cases hweak
    | _ => exact follows_refuse hc ho hweak _

omit hs hv in
/-- What has been obtained is put together. -/
theorem follows_seal (d : Descriptor) : Follows host w₀ k (do
      Action.retain [.weakCell d.origin]
      Action.note (.compiledDescriptor d.slot d.default.kind d.flags)
      return d : Build Descriptor)
    (holding (ownedByCell? d.initializer) +
      (holding d.default.owned + (holding (ownedByKey? d.initArg) + holding d.slot.owned)))
    (.done d.bare) Descriptor.bare fun d => holding d.owned := by
  refine (Follows.retainWeak hc ho d.origin _).bind (q := fun _ => .done d.bare) fun _ _ => ?_
  refine (Follows.note hc ho _ _).bind (q := fun _ => .done d.bare) fun _ _ => ?_
  -- a failing compilation gives its parts back in the opposite order of a descriptor's
  have he : holding [.weakCell d.origin] + (holding (ownedByCell? d.initializer) +
      (holding d.default.owned + (holding (ownedByKey? d.initArg) + holding d.slot.owned))) =
      holding d.owned := by
    funext x
    simp only [Descriptor.owned, holding_append, Pi.add_apply]
    omega
  rw [he]
  exact .pure rfl rfl

/-- Compiling an attribute follows its dialogue. -/
theorem follows_compile (hweak : attr.isWeak = false) :
    Follows host w₀ k (Descriptor.compile host attr) 0
      (Protocol.descriptor w₀.cache.nameHash attr) Descriptor.bare fun d => holding d.owned := by
  cases attr with
  | ref origin =>
    refine (follows_readSlot hc ho hs hv).bind fun slot _ => ?_
    have hi := (follows_readInitArg hc ho hs (hv.add (holding slot.owned))).guarding hc ho
    refine hi.bind fun initArg _ => ?_
    have hd := (follows_readDefault hc ho hs
      (hv.add (holding (ownedByKey? initArg ++ slot.owned)))).guarding hc ho
    rw [holding_append] at hd
    refine hd.bind fun default _ => ?_
    have hn := (follows_readInitializer hc ho hs
      (hv.add (holding (default.owned ++ ownedByKey? initArg ++ slot.owned)))).guarding hc ho
    rw [holding_append, holding_append, add_assoc] at hn
    refine hn.bind fun initializer _ => ?_
    exact follows_seal hc ho { slot, initArg, default, initializer, origin }
  | weak c => cases hweak
  | _ => exact follows_refuse_held hv _

end

/-! ## Instance metaobjects -/

section

include hc ho

/-- The class that a name leads to, under the generation that it has. -/
theorem follows_ofClassName (className : String) :
    Follows host w₀ k (Shadow.ofClassName host className) 0
      (Protocol.ofClassName w₀.cache.config className) Shadow.bare
      fun s => holding [.held (.shadow s)] := by
  refine .ask (fun w _ c h => nomatch h) fun w hw hcov => ⟨host.class? w className, rfl, ?_⟩
  cases hcls : host.class? w className with
  | none =>
    rw [Shadow.ofClassName_eq_error hcls]
    exact .fails hw hcov
  | some cls =>
    have hret : (w.onStore (·.retain [.cell cls])).Covers (holding [.cell cls] + (0 + k)) :=
      hcov.retain fun o ho' => by
        rw [List.mem_singleton.1 ho']
        exact ho.class? hcov hcls
    rw [zero_add] at hret
    have hw' := hw.trans (hc.unmoved_of_upkeep ho (.retain w _) hret)
    have hlive : (Inquiry.generation cls).Live (w.onStore (·.retain [.cell cls])) := by
      intro c hc'
      cases hc'
      exact hret.alive (Nat.add_pos_left (holding_pos rfl List.mem_cons_self) _)
    have hgen : host.view w₀ (.generation cls) =
        .ok (host.generation (w.onStore (·.retain [.cell cls])) cls) := (hw'.view hlive).symm
    have hlayout : w.cache.config.layout = w₀.cache.config.layout :=
      congrArg (·.1.layout) hw.settings
    rw [Shadow.ofClassName_eq_ok hcls, Protocol.run_ask hgen, ← hlayout]
    refine .ends hw' ?_
    rwa [holding_empty_shadow rfl]

variable (hs : host.Strong w₀)

include hs

theorem follows_compileAttributes (s : Shadow) {attrs : List Value}
    (hattrs : ∀ v ∈ attrs, v.isWeak = false) :
    Follows host w₀ k (Shadow.compileAttributes host s attrs)
      (holding (ownedByAll attrs) + holding [.held (.shadow s)])
      (Protocol.attributes w₀.cache.nameHash s.bare attrs) Shadow.bare
      fun s => holding [.held (.shadow s)] := by
  induction attrs generalizing s with
  | nil => exact .pure rfl (zero_add _).symm
  | cons attr rest ih =>
    obtain ⟨hattr, hrest⟩ := List.forall_mem_cons.1 hattrs
    have hheld : attr.Held
        (holding (attr.owned ++ ownedByAll rest ++ [.held (.shadow s)]) + k) := by
      rw [holding_append, holding_append, add_assoc, add_assoc]
      exact Value.held_owned hattr _
    have hcomp := (follows_compile hc ho hs hheld hattr).guarding hc ho
    rw [ownedByAll_cons, ← holding_append]
    refine hcomp.bind fun d _ => ?_
    have hbare : s.bare.append d.bare = (s.append d).bare := by
      simp [Shadow.append, Shadow.bare]
    rw [holding_handOn, hbare]
    exact (Follows.release hc ho _ _).bind
      (q := fun _ => Protocol.attributes w₀.cache.nameHash (s.append d).bare rest)
      fun _ _ => ih (s.append d) hrest

variable {inst : Value} (hv : inst.Held k)

include hv

/-- Resolving the class of an instance metaobject follows its dialogue. -/
theorem follows_resolve : Follows host w₀ k (Shadow.resolve host inst) 0
    (Protocol.resolve w₀.cache.config inst) Shadow.bare
    fun s => holding [.held (.shadow s)] := by
  refine .ask (fun w hcov => hv.alive (by rwa [zero_add] at hcov)) fun w hw hcov =>
    ⟨host.derivesFrom w inst w₀.cache.config.instanceBaseClass, rfl, ?_⟩
  have hbase : w.cache.config.instanceBaseClass = w₀.cache.config.instanceBaseClass :=
    congrArg (·.1.instanceBaseClass) hw.settings
  rw [← hbase]
  show Traces host w₀ k _ _ (Shadow.resolve host inst w) _
  rw [Shadow.resolve_apply]
  cases host.derivesFrom w inst w.cache.config.instanceBaseClass with
  | true =>
    have hask := follows_askOne hc ho hs hv (m := .ofInstance .className)
    refine hask.bind (fun v hrun => ?_) w hw hcov
    rw [zero_add] at hcov
    exact follows_text hc ho (isWeak_of_askOne hs hv hw hcov hrun) fun t =>
      follows_ofClassName hc ho t
  | false => exact follows_refuse_held hv (.notInstanceMeta · _) w hw hcov

/-- Filling a shadow follows its dialogue. -/
theorem follows_fill (empty : Shadow) : Follows host w₀ k (Shadow.fill host inst empty)
    (holding [.held (.shadow empty)])
    (Protocol.fill w₀.cache.nameHash inst empty.bare) Shadow.bare
    fun s => holding [.held (.shadow s)] := by
  refine .of_covered fun w hw hcov => ?_
  have ha : Follows host w₀ k (Build.guarding [.held (.shadow empty)]
      (host.askList inst InstanceQuery.allAttributes.method)) _ _ _ _ :=
    (follows_askList hc (hv.add _) (m := .ofInstance .allAttributes)).guarding hc ho
  refine ha.bind fun attrs hrun => ?_
  have hstrong := strong_of_run hs hw (hv.add _) hcov (Protocol.run_askList hrun)
  have hall := follows_compileAttributes (k := k) hc ho hs empty hstrong
  rw [← Protocol.bind_done (Protocol.attributes w₀.cache.nameHash empty.bare _)]
  refine hall.bind fun s _ => ?_
  exact (Follows.note hc ho _ _).bind (q := fun _ => .done s.bare) fun _ _ => .pure rfl rfl

/-- Compiling an instance metaobject follows its dialogue. -/
theorem follows_compile_shadow : Follows host w₀ k (Shadow.compile host inst) 0
    (Protocol.shadow w₀.cache.nameHash w₀.cache.config inst) Shadow.bare
    fun s => holding [.held (.shadow s)] :=
  (follows_resolve hc ho hs hv).bind fun empty _ => follows_fill hc ho hs hv empty

end

end MetaCache
