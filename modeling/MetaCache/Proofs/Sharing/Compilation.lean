import MetaCache.Lookup
import MetaCache.Proofs.Sharing.Names
import MetaCache.Proofs.Sharing.Objects
/-!
# Compilation and lookups in twin worlds

A host that does not see how names are shared is asked the same in twin worlds and answers the same,
so that both runs compile the same structures up to keys, or fail with the same error. What a lookup
finds in an extension slot, and what it puts there, is the same as well.

* `blind_askOne`, `blind_askFlag`: queries.
* `agree_compile`, `Shadow.agree_compile`: compilations.
* `Descriptor.Twin.agree_initialValue`: the value that an attribute gets.
* `blind_shadowFor`, `blind_descriptorFor`, `World.Twin.invalidate`: the cache.
-/

namespace MetaCache

variable {g : Namings} {host : Host} (hh : host.Blind)

/-! ## Queries -/

section

include hh

theorem blind_askList (v : Value) (method : String) : Trial.Blind (host.askList v method) :=
  (hh.callMethod v method).adapt Error.host

theorem blind_askOne (v : Value) (method : String) : Trial.Blind (host.askOne v method) := by
  refine (blind_askList hh v method).bind fun reply => ?_
  split
  · exact .lift (.withStore fun hs => hs.upgrade _)
  · exact fun g => Build.agree_failReleasing (Owned.twins_values _) _

theorem blind_askFlag (v : Value) (method : String) : Trial.Blind (host.askFlag v method) := by
  refine (blind_askOne hh v method).bind fun a g => ?_
  refine .readStore_bind fun s t hs => ?_
  rw [hs.isTrue_eq]
  exact (Trial.Agree.release (Owned.twins_value a)).bind fun _ _ _ _ _ => .pure rfl

end

theorem agree_failMismatch {α β : Type} {R : Namings → α → β → Prop} (v : Value)
    (m : String → Mismatch) :
    Trial.Agree g R (Build.failMismatch v m : Build α) (Build.failMismatch v m) := by
  refine .readStore_bind fun s t hs => ?_
  rw [hs.valueText_eq]
  exact Build.agree_failReleasing (Owned.twins_value v) _

theorem agree_buildKey (name : String) :
    Trial.Agree g Key.Twin (modifyGet (World.key name) : Build Key) (modifyGet (World.key name)) :=
  .lift (agree_key name)

/-! ## Attributes -/

namespace Descriptor

section

include hh

theorem agree_readSlot (attr : Value) :
    Trial.Agree g Key.Twin (readSlot host attr) (readSlot host attr) := by
  refine (blind_askList hh attr _ _).andThen fun g' _ reply => ?_
  split
  · split
    · exact agree_buildKey _
    · exact agree_failMismatch _ _
  · exact Build.agree_failReleasing (Owned.twins_values _) _

theorem agree_readInitArg (attr : Value) :
    Trial.Agree g (fun g => Option.Rel (Key.Twin g)) (readInitArg host attr)
      (readInitArg host attr) := by
  refine (blind_askFlag hh attr _ _).andThen fun g' _ has => ?_
  cases has with
  | false => exact .pure .none
  | true =>
    refine (blind_askOne hh attr _ _).andThen fun g' _ v => ?_
    refine Trial.Agree.readStore_bind fun s t hs => ?_
    rw [hs.isDefined_eq]
    split
    · split
      · exact (agree_buildKey _).bind fun _ _ _ _ hk => .pure (.some hk)
      · exact agree_failMismatch _ _
    · exact (Trial.Agree.release (Owned.twins_value v)).bind fun _ _ _ _ _ => .pure .none

omit hh in
theorem blind_captureDefault (v : Value) : Trial.Blind (captureDefault v) := by
  intro g
  cases v with
  | ref c =>
    refine .readStore_bind fun s t hs => ?_
    rw [hs.code?_eq]
    split
    · exact agree_failMismatch _ _
    · refine .get_bind fun w v hw => ?_
      rw [hw.cache.classifier]
      split
      · exact (Trial.Agree.release (Owned.twins_value _)).bind fun _ _ _ _ _ => .pure rfl
      · exact .pure rfl
  | _ => exact .pure rfl

theorem blind_readDefault (attr : Value) : Trial.Blind (readDefault host attr) := by
  refine (blind_askFlag hh attr _).bind fun has => ?_
  cases has with
  | true => exact (blind_askOne hh attr _).bind blind_captureDefault
  | false =>
    refine (blind_askFlag hh attr _).bind fun has => ?_
    cases has with
    | false => exact .pure _
    | true =>
      refine (blind_askOne hh attr _).bind fun v => ?_
      split
      · exact .pure _
      · exact fun g => agree_failMismatch _ _

theorem blind_readInitializer (attr : Value) : Trial.Blind (readInitializer host attr) := by
  refine (blind_askFlag hh attr _).bind fun has => ?_
  cases has with
  | false => exact .pure _
  | true =>
    refine (blind_askOne hh attr _).bind fun v g => ?_
    refine .readStore_bind fun s t hs => ?_
    rw [hs.code?_eq]
    split
    · exact .pure rfl
    · exact agree_failMismatch _ _

theorem agree_compile (attr : Value) :
    Trial.Agree g Descriptor.Twin (compile host attr) (compile host attr) := by
  unfold compile
  split
  · rename_i origin
    refine (agree_readSlot hh _).bind fun g₁ _ slot slot' hslot => ?_
    refine (Build.agree_guarding (agree_readInitArg hh _) fun _ _ => Owned.twins_key _ _).bind
      fun g₂ h₂ initArg initArg' hinitArg => ?_
    have hkeys (g' : Namings) : Owned.Twins g' (ownedByKey? initArg ++ slot.owned)
        (ownedByKey? initArg' ++ slot'.owned) :=
      (Owned.twins_key? hinitArg).append (Owned.twins_key slot slot')
    refine (Build.agree_guarding (blind_readDefault hh _ g₂) fun _ _ => hkeys _).bind
      fun g₃ h₃ default _ hdefault => ?_
    subst hdefault
    have hheld (g' : Namings) : Owned.Twins g' (default.owned ++ ownedByKey? initArg ++ slot.owned)
        (default.owned ++ ownedByKey? initArg' ++ slot'.owned) :=
      (default.twins_owned.append (Owned.twins_key? hinitArg)).append (Owned.twins_key slot slot')
    refine (Build.agree_guarding (blind_readInitializer hh _ g₃) fun _ _ => hheld _).bind
      fun g₄ h₄ initializer _ hinitializer => ?_
    subst hinitializer
    refine (Trial.Agree.retain (.cons (.weakCell origin) .nil)).bind fun g₅ h₅ _ _ _ => ?_
    refine (Trial.Agree.note _ _).bind fun g₆ h₆ _ _ _ => ?_
    have hgrown : g₂ ≤ g₆ := h₃.trans (h₄.trans (h₅.trans h₆))
    refine .pure ⟨hslot.mono (h₂.trans hgrown), ?_, rfl, rfl, rfl⟩
    exact rel_imp hinitArg fun _ _ hk => hk.mono hgrown
  · refine .readStore_bind fun s t hs => ?_
    rw [hs.valueText_eq]
    exact .throw _

/-- The value that an attribute gets does not depend on the keys of its descriptor. -/
theorem Twin.agree_initialValue {d e : Descriptor} (h : d.Twin g e) (inst : Value) :
    Trial.Agree g Equal (initialValue host d inst) (initialValue host e inst) := by
  unfold initialValue
  rw [h.default]
  split
  · exact .pure rfl
  · refine .readStore_bind fun s t hs => ?_
    rw [hs.code?_eq]
    split
    · exact (((hh.callCode _ _).adapt Error.host).bind fun _ => .pure _) g
    · exact (Trial.Agree.retain (Owned.twins_value _)).bind fun _ _ _ _ _ => .pure rfl
  · exact ((blind_askOne hh inst _).bind fun _ => .pure _) g
  · rename_i kind _
    have hproduced : Trial.Blind (Action.withStore kind.produce : Build Value) :=
      .lift (.withStore fun hs => hs.produce kind)
    exact (hproduced.bind fun _ => .pure _) g

end

end Descriptor

/-! ## Instances -/

namespace Shadow

theorem Twin.append {s t : Shadow} (h : s.Twin g t) {d e : Descriptor} (hd : d.Twin g e) :
    (s.append d).Twin g (t.append e) :=
  { h with descriptors := List.rel_append h.descriptors (.cons hd .nil) }

section

include hh

theorem Twin.agree_compileAttributes (attrs : List Value) {s t : Shadow} (h : s.Twin g t) :
    Trial.Agree g Shadow.Twin (compileAttributes host s attrs)
      (compileAttributes host t attrs) := by
  induction attrs generalizing g s t with
  | nil => exact .pure h
  | cons attr rest ih =>
    have hheld (g' : Namings) (hg : g ≤ g') :
        Owned.Twins g' (attr.owned ++ ownedByAll rest ++ [.held (.shadow s)])
          (attr.owned ++ ownedByAll rest ++ [.held (.shadow t)]) :=
      ((Owned.twins_value attr).append (Owned.twins_values rest)).append
        (.cons (.held (.shadow (h.mono hg))) .nil)
    refine (Build.agree_guarding (Descriptor.agree_compile hh attr) hheld).bind
      fun g₁ h₁ d e hd => ?_
    refine (Trial.Agree.release (Owned.twins_value attr)).bind fun g₂ h₂ _ _ _ => ?_
    exact ih ((h.mono (h₁.trans h₂)).append (hd.mono h₂))

theorem agree_ofClassName (className : String) :
    Trial.Agree g Shadow.Twin (ofClassName host className) (ofClassName host className) := by
  refine .get_bind fun w v hw => ?_
  rw [hh.class? hw]
  split
  · exact .throw _
  · refine (Trial.Agree.retain (.cons (.cell _) .nil)).bind fun g' _ _ _ _ => ?_
    refine .get_bind fun w' v' hw' => .pure ?_
    exact ⟨rfl, rfl, hw'.cache.config.layout, hh.generation hw' _, .nil⟩

theorem agree_resolve (inst : Value) :
    Trial.Agree g Shadow.Twin (resolve host inst) (resolve host inst) := by
  refine .get_bind fun w v hw => ?_
  dsimp only
  rw [hw.cache.config.instanceBaseClass, hh.derivesFrom hw]
  split
  · refine (blind_askOne hh inst _ _).andThen fun g' _ a => ?_
    split
    · exact agree_ofClassName hh _
    · exact agree_failMismatch _ _
  · refine Trial.Agree.readStore_bind fun s t hs => ?_
    rw [hs.valueText_eq]
    exact .throw _

theorem Twin.agree_fill (inst : Value) {s t : Shadow} (h : s.Twin g t) :
    Trial.Agree g Shadow.Twin (fill host inst s) (fill host inst t) := by
  refine (Build.agree_guarding (blind_askList hh inst _ g) fun g' hg => ?_).bind
    fun g₁ h₁ attrs _ hattrs => ?_
  · exact .cons (.held (.shadow (h.mono hg))) .nil
  subst hattrs
  refine ((h.mono h₁).agree_compileAttributes hh attrs).bind fun g₂ _ s' t' hs' => ?_
  exact (Trial.Agree.note _ _).bind fun g₃ h₃ _ _ _ => .pure (hs'.mono h₃)

theorem agree_compile (inst : Value) :
    Trial.Agree g Shadow.Twin (compile host inst) (compile host inst) :=
  (agree_resolve hh inst).bind fun _ _ _ _ hs => hs.agree_fill hh inst

end

end Shadow

/-! ## Searches -/

namespace Shadow.Twin

variable {s t : Shadow} (h : s.Twin g t) (hash : String → UInt32) (name : String)

include h

theorem index?_eq : s.index? hash name = t.index? hash name :=
  findIdx?_of_forall₂ h.descriptors fun _ _ hd => hd.slot.keyMatches_eq _ _

theorem find? : Option.Rel (Descriptor.Twin g) (s.find? hash name) (t.find? hash name) :=
  find?_of_forall₂ h.descriptors fun _ _ hd => hd.slot.keyMatches_eq _ _

omit h in
theorem initArg_any_eq {d e : Descriptor} (hd : d.Twin g e) :
    d.initArg.any (keyMatches (hash name) name) = e.initArg.any (keyMatches (hash name) name) := by
  rcases rel_cases hd.initArg with ⟨hn, hn'⟩ | ⟨_, _, hn, hn', hk⟩
  · rw [hn, hn']
  · rw [hn, hn']
    exact hk.keyMatches_eq _ _

theorem initArgIndex?_eq : s.initArgIndex? hash name = t.initArgIndex? hash name :=
  findIdx?_of_forall₂ h.descriptors fun _ _ hd => initArg_any_eq hash name hd

theorem findInitArg? :
    Option.Rel (Descriptor.Twin g) (s.findInitArg? hash name) (t.findInitArg? hash name) :=
  find?_of_forall₂ h.descriptors fun _ _ hd => initArg_any_eq hash name hd

end Shadow.Twin

/-! ## Lookups -/

namespace World.Twin

variable {w v : World} (h : w.Twin g v)

include h

theorem count (f : Stats → Stats) : (w.count f).Twin g (v.count f) :=
  { h with cache := { h.cache with
      stats := congrArg f h.cache.stats, left := h.cache.left, right := h.cache.right } }

theorem discard (target : CellId) (r : Record) (n m : Note) :
    (w.discard target r n).Twin g (v.discard target r m) := by
  have hemptied := h.onStore fun s t hs => (hs.note n m).setExtension target none
  exact ((hemptied.count _).release (Owned.twins_record r)).sweepKeys

theorem invalidate (a : Value) : (w.invalidate a).1 = (v.invalidate a).1 ∧
    (w.invalidate a).2.Twin g (v.invalidate a).2 := by
  rw [World.invalidate, World.invalidate]
  split
  · exact ⟨rfl, h⟩
  · rw [h.store.extension?_eq]
    split
    · exact ⟨rfl, h⟩
    · exact ⟨rfl, h.discard _ _ _ _⟩

theorem publish (target : CellId) {p q : Payload} (hpq : p.Twin g q) (generation : Nat)
    (governor : CellId) :
    (w.publish target p generation governor).1 = (v.publish target q generation governor).1 ∧
      (w.publish target p generation governor).2.Twin g
        (v.publish target q generation governor).2 := by
  obtain ⟨hid, hnew⟩ := h.store.newPayload hpq
  rw [World.publish, World.publish]
  simp only [hid]
  have hretained := hnew.retain (.cons (.payload (v.store.newPayload q).1)
    (.cons (.weakCell governor) .nil))
  rw [hretained.extension?_eq]
  have hwritten := hretained.setExtension target
    (some { payload := (v.store.newPayload q).1, generation, governor })
  exact ⟨trivial, (h.withStore ((hwritten.note _ _).release (Owned.twins_record? _))).count _⟩

include hh

theorem isFresh_eq (wanted : Wanted) (r : Record) :
    World.isFresh host wanted r w = World.isFresh host wanted r v := by
  rw [World.isFresh, World.isFresh, h.store.alive_eq, hh.generation h]
  rcases rel_cases (h.store.payload? r.payload) with ⟨hs, ht⟩ | ⟨p, q, hs, ht, hpq⟩
  · rw [hs, ht]
  · rw [hs, ht]
    cases hpq <;> cases wanted <;> rfl

theorem cached? (wanted : Wanted) (target : CellId) :
    (World.cached? host wanted target w).1 = (World.cached? host wanted target v).1 ∧
      (World.cached? host wanted target w).2.Twin g (World.cached? host wanted target v).2 := by
  rw [World.cached?, World.cached?, h.store.extension?_eq]
  split
  · exact ⟨rfl, h⟩
  · rename_i r _
    simp only [h.isFresh_eq hh]
    split
    · have hcounted := h.count fun st => { st with hits := st.hits + 1 }
      exact ⟨rfl, hcounted.onStore fun s t hs =>
        (hs.retain (.cons (.payload r.payload) .nil)).note _ _⟩
    · exact ⟨rfl, h.discard _ _ _ _⟩

end World.Twin

theorem blind_lookupTarget (a : Value) : Trial.Blind (lookupTarget a) := by
  intro g
  unfold lookupTarget
  split
  · exact .pure rfl
  · refine .readStore_bind fun s t hs => ?_
    rw [hs.valueText_eq]
    exact .throw _

section

include hh

theorem blind_cachedOr (wanted : Wanted) (a : Value) {build : CellId → Build PayloadId}
    (hbuild : ∀ target, Trial.Blind (build target)) :
    Trial.Blind (cachedOr host wanted a build) := by
  refine (blind_lookupTarget a).bind fun target => ?_
  have hcached : Trial.Blind (modifyGet (World.cached? host wanted target) : Build _) :=
    .lift (.change fun hw => hw.cached? hh wanted target)
  refine hcached.bind fun found => ?_
  cases found with
  | some p => exact .pure p
  | none => exact hbuild target

theorem blind_buildShadow (inst : Value) (target : CellId) :
    Trial.Blind (buildShadow host inst target) := by
  refine fun g => (Shadow.agree_compile hh inst).bind fun g' _ s t hs => ?_
  refine .change fun w v hw => ?_
  rw [hs.generation, hs.cls]
  exact hw.publish target (.shadow hs) _ _

theorem blind_buildDescriptor (attr : Value) (cls target : CellId) :
    Trial.Blind (buildDescriptor host attr cls target) := by
  refine fun g => .get_bind fun w v hw => ?_
  dsimp only
  rw [hh.generation hw]
  refine (Descriptor.agree_compile hh attr).bind fun g' _ d e hd => ?_
  exact .change fun w' v' hw' => hw'.publish target (.descriptor hd) _ _

theorem blind_shadowFor (inst : Value) : Trial.Blind (shadowFor host inst) :=
  blind_cachedOr hh .shadow inst (blind_buildShadow hh inst)

theorem blind_descriptorFor (attr : Value) (cls : CellId) :
    Trial.Blind (descriptorFor host attr cls) :=
  blind_cachedOr hh .descriptor attr (blind_buildDescriptor hh attr cls)

end

end MetaCache
