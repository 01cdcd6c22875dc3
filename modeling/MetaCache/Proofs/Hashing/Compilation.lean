import Mathlib.Data.List.Find
import MetaCache.Lookup
import MetaCache.Proofs.Hashing.Accord
/-!
# Compilation and lookups in matching worlds

A host that does not see hashes is asked the same in matching worlds and answers the same. So both
runs compile the same structures, hashes aside, or fail with the same error, and a lookup finds the
same in an extension slot and leaves the same there.

* `accord_askOne`, `accord_askFlag`: queries.
* `Descriptor.accord_compile`, `Shadow.accord_compile`: compilations.
* `Shadow.Matches.index?_eq`, `Shadow.Matches.find?_eq`: searches in a shadow.
* `accord_shadowFor`, `accord_descriptorFor`, `World.Matches.invalidate`: the cache.
-/

namespace MetaCache

variable {g : Hashings} {host : Host} (hh : host.Steady)

/-! ## Queries -/

section

include hh

theorem accord_askList (v : Value) (method : String) :
    Trial.Accord g Equal (host.askList v method) (host.askList v method) :=
  (hh.callMethod g v method).adapt Error.host

theorem accord_askOne (v : Value) (method : String) :
    Trial.Accord g Equal (host.askOne v method) (host.askOne v method) := by
  refine (accord_askList hh v method).andThen fun g' _ reply => ?_
  split
  · rename_i a
    have hupgraded : Action.Accord g' Equal (Action.withStore (·.upgrade a))
        (Action.withStore (·.upgrade a)) := .withStore fun hs => hs.upgrade a
    exact .lift hupgraded
  · exact Build.accord_failReleasing rfl _

theorem accord_askFlag (v : Value) (method : String) :
    Trial.Accord g Equal (host.askFlag v method) (host.askFlag v method) := by
  refine (accord_askOne hh v method).andThen fun g' _ a => ?_
  refine Trial.Accord.readStore_bind (fun s => s.isTrue_unhashed a) fun _ => ?_
  exact (Trial.Accord.release rfl).bind fun _ _ _ _ _ => .pure rfl

end

theorem accord_failMismatch {α : Type} {R : Hashings → α → α → Prop} (v : Value)
    (m : String → Mismatch) :
    Trial.Accord g R (Build.failMismatch v m : Build α) (Build.failMismatch v m) :=
  Trial.Accord.readStore_bind (fun s => s.valueText_unhashed v) fun _ =>
    Build.accord_failReleasing rfl _

theorem accord_key (name : String) :
    Trial.Accord g Key.Matches (modifyGet (World.key name) : Build Key)
      (modifyGet (World.key name)) :=
  .lift (.modifyGet fun _ _ hw => hw.key name)

/-! ## Parts of structures -/

namespace Key.Matches?

variable {k l : Option Key}

theorem none : Key.Matches? g none none := .of_keys_eq_nil rfl

theorem some {k l : Key} (h : k.Matches g l) : Key.Matches? g (some k) (some l) :=
  ⟨congrArg Option.some h.unhashed, h.left, h.right⟩

theorem owned (h : Key.Matches? g k l) : ownedByKey? k = ownedByKey? l := by
  rcases cases_of_map_eq h.unhashed with ⟨rfl, rfl⟩ | ⟨k, l, rfl, rfl, hkl⟩
  · rfl
  · show k.owned = l.owned
    rw [← k.owned_unhashed, hkl, l.owned_unhashed]

end Key.Matches?

/-! ## Attributes -/

namespace Descriptor

theorem Matches.slot {d e : Descriptor} (h : d.Matches g e) : d.slot.Matches g e.slot where
  unhashed := by
    have hslot : d.unhashed.slot = e.unhashed.slot := congrArg Descriptor.slot h.unhashed
    exact hslot
  left k hk := h.left k (List.mem_singleton.1 hk ▸ List.mem_cons_self)
  right k hk := h.right k (List.mem_singleton.1 hk ▸ List.mem_cons_self)

theorem Matches.mk' {slot slot' : Key} {initArg initArg' : Option Key} (h : slot.Matches g slot')
    (hi : Key.Matches? g initArg initArg') (default : DefaultStrategy)
    (initializer : Option CellId) (origin : CellId) :
    Descriptor.Matches g { slot, initArg, default, initializer, origin }
      { slot := slot', initArg := initArg', default, initializer, origin } where
  unhashed := by
    rw [unhashed, unhashed, h.unhashed, hi.unhashed]
  left k hk := (List.mem_cons.1 hk).elim (fun heq => heq ▸ h.left slot (by simp)) (hi.left k)
  right k hk := (List.mem_cons.1 hk).elim (fun heq => heq ▸ h.right slot' (by simp)) (hi.right k)

section

include hh

theorem accord_readSlot (attr : Value) :
    Trial.Accord g Key.Matches (readSlot host attr) (readSlot host attr) := by
  refine (accord_askList hh attr _).andThen fun g' _ reply => ?_
  split
  · split
    · exact accord_key _
    · exact accord_failMismatch _ _
  · exact Build.accord_failReleasing rfl _

theorem accord_readInitArg (attr : Value) :
    Trial.Accord g Key.Matches? (readInitArg host attr) (readInitArg host attr) := by
  refine (accord_askFlag hh attr _).andThen fun g' _ has => ?_
  cases has with
  | false => exact .pure .none
  | true =>
    refine (accord_askOne hh attr _).andThen fun g' _ v => ?_
    refine Trial.Accord.readStore_bind (fun s => s.isDefined_unhashed v) fun isDefined => ?_
    split
    · split
      · exact (accord_key _).bind fun _ _ _ _ hk => .pure (Key.Matches?.some hk)
      · exact accord_failMismatch _ _
    · exact (Trial.Accord.release rfl).bind fun _ _ _ _ _ => .pure .none

omit hh in
theorem accord_captureDefault (v : Value) :
    Trial.Accord g Equal (captureDefault v) (captureDefault v) := by
  cases v with
  | ref c =>
    refine Trial.Accord.readStore_bind (fun s => s.code?_unhashed (.ref c)) fun code => ?_
    cases code with
    | none => exact accord_failMismatch _ _
    | some code =>
      refine .get_bind fun w v hw => ?_
      rw [hw.classifier]
      split
      · exact (Trial.Accord.release rfl).bind fun _ _ _ _ _ => .pure rfl
      · exact .pure rfl
  | _ => exact .pure rfl

theorem accord_readDefault (attr : Value) :
    Trial.Accord g Equal (readDefault host attr) (readDefault host attr) := by
  refine (accord_askFlag hh attr _).andThen fun g₁ _ has => ?_
  cases has with
  | true => exact (accord_askOne hh attr _).andThen fun _ _ v => accord_captureDefault v
  | false =>
    refine (accord_askFlag hh attr _).andThen fun g₂ _ has => ?_
    cases has with
    | false => exact .pure rfl
    | true =>
      refine (accord_askOne hh attr _).andThen fun g₃ _ v => ?_
      split
      · exact .pure rfl
      · exact accord_failMismatch _ _

theorem accord_readInitializer (attr : Value) :
    Trial.Accord g Equal (readInitializer host attr) (readInitializer host attr) := by
  refine (accord_askFlag hh attr _).andThen fun g₁ _ has => ?_
  cases has with
  | false => exact .pure rfl
  | true =>
    refine (accord_askOne hh attr _).andThen fun g₂ _ v => ?_
    refine Trial.Accord.readStore_bind (fun s => s.code?_unhashed v) fun code => ?_
    split
    · exact .pure rfl
    · exact accord_failMismatch _ _

theorem accord_compile (attr : Value) :
    Trial.Accord g Descriptor.Matches (compile host attr) (compile host attr) := by
  unfold compile
  split
  · rename_i origin
    refine (accord_readSlot hh _).bind fun g₁ _ slot slot' hslot => ?_
    have hslotOwned := hslot.owned
    refine (Build.accord_guarding (accord_readInitArg hh _) (by rw [hslotOwned])).bind
      fun g₂ h₂ initArg initArg' hinitArg => ?_
    have hinitArgOwned := Key.Matches?.owned hinitArg
    refine (Build.accord_guarding (accord_readDefault hh _)
      (by rw [hslotOwned, hinitArgOwned])).andThen fun g₃ h₃ default => ?_
    refine (Build.accord_guarding (accord_readInitializer hh _)
      (by rw [hslotOwned, hinitArgOwned])).andThen fun g₄ h₄ initializer => ?_
    refine (Trial.Accord.retain _).andThen fun g₅ h₅ _ => ?_
    refine (Trial.Accord.note _ _).andThen fun g₆ h₆ _ => ?_
    have hgrown : g₂ ≤ g₆ := h₃.trans (h₄.trans (h₅.trans h₆))
    exact .pure (.mk' (hslot.mono (h₂.trans hgrown)) (hinitArg.mono hgrown) _ _ _)
  · exact Trial.Accord.readStore_bind (fun s => s.valueText_unhashed attr) fun _ => .throw _

end

end Descriptor

/-! ## Instances -/

namespace Shadow

theorem Matches.append {s t : Shadow} (h : s.Matches g t) {d e : Descriptor} (hd : d.Matches g e) :
    Shadow.Matches g (s.append d) (t.append e) := by
  have hunhashed (s : Shadow) (d : Descriptor) :
      (s.append d).unhashed = s.unhashed.append d.unhashed := by
    rw [Shadow.append, unhashed, List.map_append]
    rfl
  have hkeys (s : Shadow) (d : Descriptor) : (s.append d).keys = s.keys ++ d.keys := by
    rw [Shadow.append, keys, List.flatMap_append, List.flatMap_singleton]
    rfl
  constructor
  case unhashed => rw [hunhashed, hunhashed, h.unhashed, hd.unhashed]
  case left =>
    intro k hk
    rw [hkeys] at hk
    exact (List.mem_append.1 hk).elim (h.left k) (hd.left k)
  case right =>
    intro k hk
    rw [hkeys] at hk
    exact (List.mem_append.1 hk).elim (h.right k) (hd.right k)

section

include hh

theorem Matches.accord_compileAttributes (attrs : List Value) {s t : Shadow} (h : s.Matches g t) :
    Trial.Accord g Shadow.Matches (compileAttributes host s attrs)
      (compileAttributes host t attrs) := by
  induction attrs generalizing g s t with
  | nil => exact .pure h
  | cons attr rest ih =>
    refine (Build.accord_guarding (Descriptor.accord_compile hh attr) ?_).bind
      fun g₁ h₁ d e hd => ?_
    · simp only [List.map_append, List.map_cons, Owned.unhashed, Payload.unhashed, h.unhashed]
    · refine (Trial.Accord.release rfl).andThen fun g₂ h₂ _ => ?_
      exact ih (Matches.append (h.mono (h₁.trans h₂)) (hd.mono h₂))

theorem accord_ofClassName (className : String) :
    Trial.Accord g Shadow.Matches (ofClassName host className) (ofClassName host className) := by
  refine .get_bind fun w v hw => ?_
  rw [hh.class? hw.unhashed]
  split
  · exact .throw _
  · refine (Trial.Accord.retain _).andThen fun g' _ _ => .get_bind fun w' v' hw' => .pure ?_
    rw [hw'.config, hh.generation hw'.unhashed]
    exact .of_keys_eq_nil rfl

theorem accord_resolve (inst : Value) :
    Trial.Accord g Shadow.Matches (resolve host inst) (resolve host inst) := by
  refine .get_bind fun w v hw => ?_
  dsimp only
  rw [hw.config, hh.derivesFrom hw.unhashed]
  split
  · refine (accord_askOne hh inst _).andThen fun g' _ a => ?_
    split
    · exact accord_ofClassName hh _
    · exact accord_failMismatch _ _
  · exact Trial.Accord.readStore_bind (fun s => s.valueText_unhashed inst) fun _ => .throw _

theorem Matches.accord_fill (inst : Value) {s t : Shadow} (h : s.Matches g t) :
    Trial.Accord g Shadow.Matches (fill host inst s) (fill host inst t) := by
  refine (Build.accord_guarding (accord_askList hh inst _) ?_).andThen fun g₁ h₁ attrs => ?_
  · simp only [List.map_cons, Owned.unhashed, Payload.unhashed, h.unhashed]
  · refine (Matches.accord_compileAttributes hh attrs (h.mono h₁)).bind fun g₂ _ s' t' hs' => ?_
    exact (Trial.Accord.note _ _).andThen fun g₃ h₃ _ => .pure (hs'.mono h₃)

theorem accord_compile (inst : Value) :
    Trial.Accord g Shadow.Matches (compile host inst) (compile host inst) :=
  (accord_resolve hh inst).bind fun _ _ _ _ hs => Matches.accord_fill hh inst hs

end

/-! ## Searches -/

section

variable {s t : Shadow} {n : Naming} {hash : String → UInt32}

/-- A key that fits is that of a name exactly if it has this name. -/
theorem keyMatches_of_fits {k : Key} (hk : n.Fits hash k) (name : String) :
    keyMatches (hash name) name k = (k.unhashed.text == name) := by
  have ht : k.unhashed.text = k.text := rfl
  rw [keyMatches, hk.hash, ht]
  by_cases hname : k.text = name
  · rw [hname, BEq.rfl, BEq.rfl, Bool.and_self]
  · rw [beq_false_of_ne hname, Bool.and_false]

section

variable {p q : Descriptor → Bool} {ds : List Descriptor} (h : ∀ d ∈ ds, p d = q d.unhashed)

include h

theorem find?_unhashed :
    (ds.find? p).map Descriptor.unhashed = (ds.map Descriptor.unhashed).find? q := by
  rw [List.find?_map, List.find?_congr h]
  rfl

theorem findIdx?_unhashed : ds.findIdx? p = (ds.map Descriptor.unhashed).findIdx? q := by
  induction ds with
  | nil => rfl
  | cons d rest ih =>
    rw [List.map_cons, List.findIdx?_cons, List.findIdx?_cons, ← h d List.mem_cons_self,
      ih fun e he => h e (List.mem_cons_of_mem _ he)]

end

/-- The descriptor is one for the slot of that name. -/
def isSlot (name : String) (d : Descriptor) : Bool := d.slot.text == name

/-- The descriptor is one for the init-arg of that name. -/
def isInitArg (name : String) (d : Descriptor) : Bool := d.initArg.any (·.text == name)

section

variable (hs : ∀ k ∈ s.keys, n.Fits hash k) (name : String)

include hs

theorem slot_matches : ∀ d ∈ s.descriptors,
    keyMatches (hash name) name d.slot = isSlot name d.unhashed := fun d hd =>
  keyMatches_of_fits (hs d.slot (List.mem_flatMap.2 ⟨d, hd, List.mem_cons_self⟩)) name

theorem initArg_matches : ∀ d ∈ s.descriptors,
    d.initArg.any (keyMatches (hash name) name) = isInitArg name d.unhashed := by
  intro d hd
  obtain ⟨slot, initArg, _, _, _⟩ := d
  cases initArg with
  | none => rfl
  | some k =>
    exact keyMatches_of_fits
      (hs k (List.mem_flatMap.2 ⟨_, hd, List.mem_cons_of_mem _ (List.mem_singleton_self k)⟩)) name

end

namespace Matches

variable (h : s.Matches g t) (name : String)

include h

theorem descriptors : s.descriptors.map Descriptor.unhashed =
    t.descriptors.map Descriptor.unhashed := by
  have hdescriptors : s.unhashed.descriptors = t.unhashed.descriptors :=
    congrArg Shadow.descriptors h.unhashed
  exact hdescriptors

theorem index?_eq : s.index? g.left name = t.index? g.right name := by
  rw [index?, index?, findIdx?_unhashed (slot_matches h.left name), descriptors h,
    ← findIdx?_unhashed (slot_matches h.right name)]

theorem initArgIndex?_eq : s.initArgIndex? g.left name = t.initArgIndex? g.right name := by
  rw [initArgIndex?, initArgIndex?, findIdx?_unhashed (initArg_matches h.left name), descriptors h,
    ← findIdx?_unhashed (initArg_matches h.right name)]

theorem find?_eq : (s.find? g.left name).map Descriptor.unhashed =
    (t.find? g.right name).map Descriptor.unhashed := by
  rw [Shadow.find?, Shadow.find?, find?_unhashed (slot_matches h.left name), descriptors h,
    ← find?_unhashed (slot_matches h.right name)]

theorem findInitArg?_eq : (s.findInitArg? g.left name).map Descriptor.unhashed =
    (t.findInitArg? g.right name).map Descriptor.unhashed := by
  rw [findInitArg?, findInitArg?, find?_unhashed (initArg_matches h.left name), descriptors h,
    ← find?_unhashed (initArg_matches h.right name)]

end Matches

end

end Shadow

/-! ## Lookups -/

theorem Payload.Matches.tag (name : String) : Payload.Matches g (.tag name) (.tag name) :=
  .of_keys_eq_nil rfl

theorem Payload.Matches.descriptor {d e : Descriptor} (h : d.Matches g e) :
    Payload.Matches g (.descriptor d) (.descriptor e) :=
  ⟨congrArg Payload.descriptor h.unhashed, h.left, h.right⟩

theorem Payload.Matches.shadow {s t : Shadow} (h : s.Matches g t) :
    Payload.Matches g (.shadow s) (.shadow t) :=
  ⟨congrArg Payload.shadow h.unhashed, h.left, h.right⟩

theorem Wanted.accepts_unhashed (wanted : Wanted) (p : Payload) :
    wanted.accepts p.unhashed = wanted.accepts p := by
  cases wanted <;> cases p <;> rfl

namespace World.Matches

variable {w v : World} (h : w.Matches g v)

include h

theorem onStore {f f' : Store → Store}
    (hf : ∀ {a b s t}, Store.Matches g a b s t → (f s).Matches g a b (f' t)) :
    (w.onStore f).Matches g (v.onStore f') :=
  h.withStore (hf h.store)

theorem count (f : Stats → Stats) : (w.count f).Matches g (v.count f) := by
  have hcache : { w.cache.unhashed with stats := f w.cache.unhashed.stats } =
      { v.cache.unhashed with stats := f v.cache.unhashed.stats } := by rw [h.cache]
  exact { h with store := h.store, cache := hcache, left := h.left, right := h.right }

theorem discard (target : CellId) (r : Record) (n m : Note) :
    (w.discard target r n).Matches g (v.discard target r m) := by
  have hemptied : (w.onStore fun s => (s.note n).setExtension target none).Matches g
      (v.onStore fun s => (s.note m).setExtension target none) :=
    h.onStore fun hs => (hs.note n m).setExtension target none
  exact ((hemptied.count _).onStore fun hs => hs.release rfl).sweepKeys

theorem invalidate (x : Value) : (w.invalidate x).1 = (v.invalidate x).1 ∧
    (w.invalidate x).2.Matches g (v.invalidate x).2 := by
  rw [World.invalidate, World.invalidate]
  split
  · exact ⟨rfl, h⟩
  · rw [h.store.extension?_eq]
    split
    · exact ⟨rfl, h⟩
    · exact ⟨rfl, h.discard _ _ _ _⟩

theorem publish (target : CellId) {p q : Payload} (hpq : p.Matches g q) (generation : Nat)
    (governor : CellId) :
    (w.publish target p generation governor).1 = (v.publish target q generation governor).1 ∧
      (w.publish target p generation governor).2.Matches g
        (v.publish target q generation governor).2 := by
  obtain ⟨hid, hnew⟩ := h.store.newPayload hpq
  rw [World.publish, World.publish]
  simp only [hid]
  have hretained := hnew.retain [.payload (v.store.newPayload q).1, .weakCell governor]
  rw [hretained.extension?_eq]
  have hwritten := hretained.setExtension target
    (some { payload := (v.store.newPayload q).1, generation, governor })
  exact ⟨trivial, (h.withStore ((hwritten.note _ _).release rfl)).count _⟩

include hh

theorem isFresh_eq (wanted : Wanted) (r : Record) :
    World.isFresh host wanted r w = World.isFresh host wanted r v := by
  have haccepts : (w.store.payload? r.payload).any wanted.accepts =
      (v.store.payload? r.payload).any wanted.accepts := by
    refine h.store.read (r := fun s => (s.payload? r.payload).any wanted.accepts) fun s => ?_
    rw [Store.payload?_unhashed, Option.any_map]
    exact congrArg (fun f => (s.payload? r.payload).any f) (funext wanted.accepts_unhashed)
  rw [World.isFresh, World.isFresh, haccepts, h.store.alive_eq,
    hh.generation h.unhashed]

theorem cached? (wanted : Wanted) (target : CellId) :
    (World.cached? host wanted target w).1 = (World.cached? host wanted target v).1 ∧
      (World.cached? host wanted target w).2.Matches g (World.cached? host wanted target v).2 := by
  rw [World.cached?, World.cached?, h.store.extension?_eq]
  split
  · exact ⟨rfl, h⟩
  · rename_i r _
    simp only [h.isFresh_eq hh]
    split
    · have hcounted := h.count fun st => { st with hits := st.hits + 1 }
      exact ⟨rfl, hcounted.onStore fun hs => (hs.retain [.payload r.payload]).note _ _⟩
    · exact ⟨rfl, h.discard _ _ _ _⟩

end World.Matches

theorem accord_lookupTarget (x : Value) :
    Trial.Accord g Equal (lookupTarget x) (lookupTarget x) := by
  unfold lookupTarget
  split
  · exact .pure rfl
  · exact Trial.Accord.readStore_bind (fun s => s.valueText_unhashed x) fun _ => .throw _

section

include hh

theorem accord_cachedOr (wanted : Wanted) (x : Value) {build : CellId → Build PayloadId}
    (hbuild : ∀ g' target, Trial.Accord g' Equal (build target) (build target)) :
    Trial.Accord g Equal (cachedOr host wanted x build) (cachedOr host wanted x build) := by
  refine (accord_lookupTarget x).andThen fun g₁ _ target => ?_
  have hcached : Trial.Accord g₁ Equal (modifyGet (World.cached? host wanted target) : Build _)
      (modifyGet (World.cached? host wanted target)) :=
    .change fun w v hw => hw.cached? hh wanted target
  refine hcached.andThen fun g₂ _ found => ?_
  cases found with
  | some p => exact .pure rfl
  | none => exact hbuild g₂ target

theorem accord_buildShadow (inst : Value) (target : CellId) :
    Trial.Accord g Equal (buildShadow host inst target) (buildShadow host inst target) := by
  refine (Shadow.accord_compile hh inst).bind fun g' _ s t hs => ?_
  refine .change fun w v hw => ?_
  have hcls : s.unhashed.cls = t.unhashed.cls := congrArg Shadow.cls hs.unhashed
  have hgeneration : s.unhashed.generation = t.unhashed.generation :=
    congrArg Shadow.generation hs.unhashed
  rw [show s.generation = t.generation from hgeneration, show s.cls = t.cls from hcls]
  exact hw.publish target (.shadow hs) _ _

theorem accord_buildDescriptor (attr : Value) (cls target : CellId) :
    Trial.Accord g Equal (buildDescriptor host attr cls target)
      (buildDescriptor host attr cls target) := by
  refine .get_bind fun w v hw => ?_
  dsimp only
  rw [hh.generation hw.unhashed]
  refine (Descriptor.accord_compile hh attr).bind fun g' _ d e hd => ?_
  exact .change fun w' v' hw' => hw'.publish target (.descriptor hd) _ _

theorem accord_shadowFor (inst : Value) :
    Trial.Accord g Equal (shadowFor host inst) (shadowFor host inst) :=
  accord_cachedOr hh .shadow inst fun _ target => accord_buildShadow hh inst target

theorem accord_descriptorFor (attr : Value) (cls : CellId) :
    Trial.Accord g Equal (descriptorFor host attr cls) (descriptorFor host attr cls) :=
  accord_cachedOr hh .descriptor attr fun _ target => accord_buildDescriptor hh attr cls target

end

end MetaCache
