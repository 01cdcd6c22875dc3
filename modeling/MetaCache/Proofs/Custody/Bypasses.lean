import MetaCache.Proofs.Custody.Lookups
import MetaCache.Proofs.Dialogue.Keys
import MetaCache.Proofs.History.Quiet
/-!
# What is done past the cache

Classes are defined and redefined, cells are made, references are copied and given back: none of it
touches the key table, an extension slot or a compiled structure, and nobody gets hold of a name or
of a structure by it. A lookup that is answered from a slot does no more than that either, once its
handle has been dropped.

* `World.Sane`: the counts are exact, and the registry has classes alone.
* `World.Bypasses`: nothing is done that concerns the cache.
* `World.bypasses_defineClass`, `World.bypasses_bumpClass`, `World.bypasses_newObject`,
  `World.bypasses_hit`: such operations.
-/

namespace MetaCache

/-- The share is one of a name or of a payload. -/
def Share.isInner : Share → Bool
  | name _ | payload _ => true
  | cell _ | weakCell _ | weakPayload _ => false

/-- Values have neither names nor structures. -/
theorem holding_ownedByAll_inner (vs : List Value) {x : Share} (hx : x.isInner) :
    holding (ownedByAll vs) x = 0 := by
  induction vs with
  | nil => rfl
  | cons v rest ih =>
    rw [ownedByAll_cons, holding_append, Pi.add_apply, ih]
    cases x with
    | name n | payload p => cases v <;> rfl
    | _ => cases hx

theorem holding_cell_inner (c : CellId) {x : Share} (hx : x.isInner) : holding [.cell c] x = 0 := by
  cases x with
  | name n | payload p => rfl
  | _ => cases hx

/-- Objects have neither names nor structures. -/
theorem Object.holding_inner (o : Object) {x : Share} (hx : x.isInner) :
    holding o.owned x = 0 := by
  have hbs (bs : Behaviors) : holding (bs.flatMap fun b => b.2.owned) x = 0 := by
    induction bs with
    | nil => rfl
    | cons b rest ih =>
      rw [List.flatMap_cons, holding_append, Pi.add_apply, ih]
      cases b.2 with
      | reply vs => exact holding_ownedByAll_inner vs hx
      | _ => rfl
  cases o with
  | attributeMeta bs => exact hbs bs
  | instanceMeta name bs => exact hbs bs
  | classMeta name generation attrs => exact holding_ownedByAll_inner attrs hx
  | plain name isa => rfl

namespace World

variable {S : CellId → String → Prop} {host : Host} {w w' w'' : World} {f f' f'' g : Holding}
  {c : CellId}

/-- What comes to acts keeps the counts exact. -/
theorem Minds.exact (h : w.Minds S f w' f') (he : w.store.Exact (holding w.roots + f)) :
    w'.store.Exact (holding w'.roots + f') := by
  have hstart : (w.estate [] (f + 0)).Exact := by
    show w.store.Exact (holding [] + _)
    rwa [holding_nil, zero_add, add_zero]
  obtain ⟨ks, hl⟩ := h.2 0 [] hstart
  have hend := hl.exact hstart
  rw [add_zero] at hend
  rwa [show w'.store.Exact _ ↔ w'.store.Exact (holding [] + (holding w'.roots + f')) by
    rw [holding_nil, zero_add]]

/-- The counts are exact, and what the registry has under a name is a class. -/
structure Sane (w : World) (f : Holding) : Prop where
  exact : w.store.Exact (holding w.roots + f)
  classes : ∀ e ∈ w.registry.classes, (w.objectIn? e.2).any Object.isClass

namespace Sane

theorem covers (h : w.Sane f) : w.Covers f := h.exact.covers

/-- Classes stay classes where their referents stay. -/
theorem of_kept (h : w.Sane f) (he : w'.store.Exact (holding w'.roots + f'))
    (hreg : w'.registry.classes = w.registry.classes)
    (href : ∀ c, w.store.alive c → w'.store.alive c →
      w'.store.referent? c = w.store.referent? c) : w'.Sane f' where
  exact := he
  classes e hm := by
    have hcov' : w'.Covers f' := he.covers
    have halive' := hcov'.alive_of_registered hm
    rw [hreg] at hm
    rw [objectIn?_congr (href e.2 (h.covers.alive_of_registered hm) halive')]
    exact h.classes e hm

theorem isClass (h : w.Sane f) {name : String} (hc : w.class? name = some c) :
    (w.objectIn? c).any Object.isClass :=
  h.classes (name, c) (mem_of_lookup hc)

end Sane

/-- From `w`, with `f` held, to `w'`, with `f'` held, nothing is done that concerns the cache: the
key table, the settings, the extension slots and the structures stay as they are, and nobody gets
hold of a name or of a structure. -/
structure Bypasses (w : World) (f : Holding) (w' : World) (f' : Holding) : Prop where
  keys : w'.cache.keys = w.cache.keys
  settings : w'.cache.settings = w.cache.settings
  ages : w.store.Ages w'.store
  slots : ∀ c, w'.store.alive c → w'.store.extension? c = w.store.extension? c
  payloads : ∀ p x, w'.store.payload? p = some x → w.store.payload? p = some x
  outside : ∀ x : Share, x.isInner → (holding w.roots + f) x = 0 → (holding w'.roots + f') x = 0
  referents : ∀ n : NameId,
    (∀ c r, w.store.referent? c = some r → holding r.owned (.name n) = 0) →
      ∀ c r, w'.store.referent? c = some r → holding r.owned (.name n) = 0
  sane : w'.Sane f'

namespace Bypasses

theorem trans (h : w.Bypasses f w' f') (h' : w'.Bypasses f' w'' f'') : w.Bypasses f w'' f'' where
  keys := h'.keys.trans h.keys
  settings := h'.settings.trans h.settings
  ages := h.ages.trans h'.ages
  slots c hc := by
    rw [h'.slots c hc]
    by_cases hc' : w'.store.alive c
    · exact h.slots c hc'
    · -- the cell is newer than both worlds
      have hdead : ¬ w.store.alive c := fun hw => by
        have hold := h.ages.old (.cell c) (Store.lt_next_of_alive hw)
        exact hc' (h'.ages.has (.cell c) hold hc)
      rw [Store.extension?_of_dead hc', Store.extension?_of_dead hdead]
  payloads p x hx := h.payloads p x (h'.payloads p x hx)
  outside x hx h0 := h'.outside x hx (h.outside x hx h0)
  referents n hn := h'.referents n (h.referents n hn)
  sane := h'.sane

/-- What is in cells and structures stays, and what comes to acts is done. -/
theorem of_sheds (h : w.Sane f) (hs : w.store.Sheds w'.store) (ha : w.store.Ages w'.store)
    (hkeys : w'.cache.keys = w.cache.keys) (hset : w'.cache.settings = w.cache.settings)
    (hreg : w'.registry.classes = w.registry.classes)
    (he : w'.store.Exact (holding w'.roots + f'))
    (hout : ∀ x : Share, x.isInner → (holding w.roots + f) x = 0 → (holding w'.roots + f') x = 0) :
    w.Bypasses f w' f' where
  keys := hkeys
  settings := hset
  ages := ha
  slots _ hc := hs.extension?_eq hc
  payloads := hs.payload?
  outside := hout
  referents _ hn c r hr := hn c r (hs.keeps.referent? c r hr)
  sane := h.of_kept he hreg fun _ _ hc => hs.keeps.referent?_eq hc

theorem release {os : List Owned} (h : w.Sane (holding os + g)) :
    w.Bypasses (holding os + g) (w.onStore (·.release os)) g := by
  have hm := (Minds.release (S := fun _ _ => True) w os).frame g
  rw [zero_add] at hm
  refine .of_sheds h (Store.sheds_release _ os) (w.store.ages_release os) rfl rfl rfl
    (hm.exact h.exact) fun x _ h0 => ?_
  show holding w.roots x + g x = 0
  simp only [Pi.add_apply] at h0
  omega

/-- A further share of a cell. -/
theorem retain (h : w.Sane f) (hc : w.store.alive c) :
    w.Bypasses f (w.onStore (·.retain [.cell c])) (holding [.cell c] + f) := by
  have hretain : w.Minds (fun _ _ => True) 0 (w.onStore (·.retain [.cell c])) (holding [.cell c]) :=
    .retain fun _ _ _ o ho => by rw [List.mem_singleton.1 ho]; exact hc
  have hm := hretain.frame f
  rw [zero_add] at hm
  refine .of_sheds h (Store.sheds_retain _ _) (w.store.ages_retain _) rfl rfl rfl
    (hm.exact h.exact) fun x hx h0 => ?_
  simp only [Pi.add_apply, holding_cell_inner c hx, zero_add] at h0 ⊢
  exact h0

end Bypasses

/-! ## Objects -/

/-- An object that is changed keeps the counts exact, if it takes the shares it needs from whoever
changes it, and the registry right, if classes stay classes. -/
theorem Sane.setObject {o o' : Object} (h : w.Sane f) (ho : w.objectIn? c = some o)
    (hclass : o'.isClass = o.isClass)
    (heq : ∀ x, holding o'.owned x + f' x = holding o.owned x + f x) :
    (w.onStore (·.setReferent c (.object o'))).Sane f' := by
  obtain ⟨y, hy, hyr⟩ := Option.map_eq_some_iff.1 (objectIn?_eq_some.1 ho)
  have hexact : (w.store.setReferent c (.object o')).Exact (holding w.roots + f') :=
    h.exact.writeCell (k := fun y => { y with referent := .object o' }) hy fun x => by
      have hx := heq x
      rw [Cell.owned, Cell.owned, hyr]
      simp only [holding_append, Pi.add_apply, Referent.owned]
      omega
  refine ⟨hexact, fun e he => ?_⟩
  have hold := h.classes e he
  rw [objectIn?_setObject ho]
  split
  · rename_i hec
    rw [hec, ho] at hold
    exact hclass.trans hold
  · exact hold

/-- An object that is changed takes the shares it needs from whoever changes it. -/
theorem bypasses_modifyObject {k : Object → Object} (h : w.Sane f)
    (hk : ∀ o, (k o).isClass = o.isClass)
    (heq : ∀ o, w.objectIn? c = some o → ∀ x,
      holding (k o).owned x + f' x = holding o.owned x + f x)
    (hnone : w.objectIn? c = none → f' = f) : w.Bypasses f (w.modifyObject c k) f' := by
  cases ho : w.objectIn? c with
  | none =>
    rw [modifyObject_of_none ho, hnone ho]
    exact .of_sheds h (.refl _) (.refl _) rfl rfl rfl h.exact fun _ _ => id
  | some o =>
    rw [modifyObject_of_some ho]
    constructor
    case keys => rfl
    case settings => rfl
    case ages => exact w.store.ages_writeCell c fun y => { y with referent := .object (k o) }
    case slots => exact fun d _ => Store.extension?_setReferent _ c d _
    case payloads => exact fun _ _ hx => hx
    case outside =>
      intro x hx h0
      have h1 := heq o ho x
      rw [Object.holding_inner _ hx, Object.holding_inner _ hx] at h1
      simp only [Pi.add_apply] at h0 ⊢
      show holding w.roots x + f' x = 0
      omega
    case referents =>
      intro n hn d r hd
      rw [referent?_setObject ho] at hd
      split at hd
      · cases hd
        exact (k o).holding_inner rfl
      · exact hn d r hd
    case sane => exact h.setObject ho (hk o) (heq o ho)

/-- A new cell with an object. -/
theorem bypasses_newObject {o : Object} (h : w.Sane (holding o.owned + g)) :
    w.Bypasses (holding o.owned + g) (w.onStore fun s => (s.newCell (.object o)).2)
      (holding [.cell w.store.cells.next] + g) := by
  have href (d : CellId) : (w.onStore fun s => (s.newCell (.object o)).2).store.referent? d =
      if d = w.store.cells.next then some (.object o) else w.store.referent? d :=
    w.store.referent?_newCell _ d
  constructor
  case keys => rfl
  case settings => rfl
  case ages => exact w.store.ages_newCell _
  case slots => exact fun d _ => w.store.extension?_newCell _ d
  case payloads => exact fun _ _ hx => hx
  case outside =>
    intro x hx h0
    have hval := o.holding_inner hx
    simp only [Pi.add_apply, holding_cell_inner _ hx, hval] at h0 ⊢
    exact h0
  case referents =>
    intro n hn d r hd
    rw [href] at hd
    split at hd
    · cases hd
      exact o.holding_inner rfl
    · exact hn d r hd
  case sane =>
    refine h.of_kept ?_ rfl fun d hd _ => ?_
    · have he := h.exact
      rw [add_left_comm] at he ⊢
      exact Store.Exact.newCell (r := .object o) he
    · exact (href d).trans (if_neg (Nat.ne_of_lt (Store.lt_next_of_alive hd)))

/-! ## Classes -/

/-- A class of the registry is given other attributes. -/
theorem bypasses_setAttributes {attrs : List Value} (h : w.Sane (holding (ownedByAll attrs) + g))
    (hc : (w.objectIn? c).any Object.isClass) :
    w.Bypasses (holding (ownedByAll attrs) + g) (w.setAttributes c attrs) g := by
  obtain ⟨o, ho, hclass⟩ := (Option.any_eq_true ..).1 hc
  cases o with
  | classMeta n gen old =>
    have hold : ((w.objectIn? c).map Object.attributes).getD [] = old := by
      rw [ho]
      rfl
    have hmod : w.Bypasses (holding (ownedByAll attrs) + g)
        (w.modifyObject c (Object.withAttributes attrs)) (holding (ownedByAll old) + g) := by
      refine bypasses_modifyObject h (fun o => by cases o <;> rfl) (fun o' ho' x => ?_) fun hn => ?_
      · cases ho.symm.trans ho'
        show holding (ownedByAll attrs) x + (_ + _) = holding (ownedByAll old) x + (_ + _)
        omega
      · cases ho.symm.trans hn
    rw [setAttributes, hold]
    exact hmod.trans (.release hmod.sane)
  | _ => cases hclass

theorem bypasses_bumpClass (h : w.Sane f) (c : CellId) : w.Bypasses f (w.bumpClass c).2 f :=
  bypasses_modifyObject h (fun o => by cases o <;> rfl) (fun o _ x => by cases o <;> rfl)
    fun _ => rfl

/-- A class gets a name that no class had. -/
theorem bypasses_nameClass {name : String} (h : w.Sane (holding [.cell c] + g))
    (hc : (w.objectIn? c).any Object.isClass) (hn : w.class? name = none) :
    w.Bypasses (holding [.cell c] + g)
      { w with registry := { w.registry with classes := putNamed name c w.registry.classes } }
      g := by
  have hput : putNamed name c w.registry.classes = w.registry.classes ++ [(name, c)] :=
    putNamed_of_lookup_eq_none hn c
  have hroots (x : Share) : holding (World.roots { w with
      registry := { w.registry with classes := putNamed name c w.registry.classes } }) x =
      holding w.roots x + holding [.cell c] x := by
    simp only [World.roots, hput, List.map_append, List.map_cons, List.map_nil, holding_append,
      Pi.add_apply]
    omega
  constructor
  case keys => rfl
  case settings => rfl
  case ages => exact .refl _
  case slots => exact fun _ _ => rfl
  case payloads => exact fun _ _ hx => hx
  case outside =>
    intro x _ h0
    simp only [Pi.add_apply, hroots] at h0 ⊢
    omega
  case referents => exact fun _ hr => hr
  case sane =>
    refine ⟨h.exact.congr fun x _ => ?_, fun e he => ?_⟩
    · simp only [Pi.add_apply, hroots]
      omega
    · have hmem : e ∈ w.registry.classes ++ [(name, c)] := hput ▸ he
      rcases List.mem_append.1 hmem with hold | hnew
      · exact h.classes e hold
      · rw [List.mem_singleton.1 hnew]
        exact hc

/-- A class is defined, or redefined under its name. -/
theorem bypasses_defineClass {attrs : List Value} (h : w.Sane (holding (ownedByAll attrs) + g))
    (name : String) : w.Bypasses (holding (ownedByAll attrs) + g) (w.defineClass name attrs).2
      (holding [.cell (w.defineClass name attrs).1] + g) := by
  cases hc : w.class? name with
  | some c =>
    have hdef : w.defineClass name attrs =
        (c, (((w.onStore (·.retain [.cell c])).setAttributes c attrs).bumpClass c).2) := by
      rw [defineClass, hc]
    have hret : w.Bypasses _ _ _ := .retain h (h.covers.alive_of_class? hc)
    rw [add_left_comm] at hret
    have hc' : (w.onStore (·.retain [.cell c])).class? name = some c := hc
    have hclass := hret.sane.isClass hc'
    have hset := bypasses_setAttributes hret.sane hclass
    rw [hdef]
    exact (hret.trans hset).trans (bypasses_bumpClass hset.sane c)
  | none =>
    have hnew := bypasses_newObject (o := .classMeta name 0 attrs) h
    have hself := w.store.cell?_newCell_self (.object (.classMeta name 0 attrs))
    have halive : (w.store.newCell (.object (.classMeta name 0 attrs))).2.alive
        w.store.cells.next := Store.alive_iff_cell?.2 ⟨_, hself⟩
    have hret := Bypasses.retain hnew.sane halive
    have hobject : ((w.onStore fun s => (s.newCell (.object (.classMeta name 0 attrs))).2).onStore
        (·.retain [.cell w.store.cells.next])).objectIn? w.store.cells.next =
        some (.classMeta name 0 attrs) := by
      rw [objectIn?_eq_some]
      exact congrArg (Option.map Cell.referent) ((Store.cell?_retain _ _ _).trans hself)
    have hname := bypasses_nameClass hret.sane (by rw [hobject]; rfl) hc
    rw [defineClass, hc]
    exact (hnew.trans hret).trans hname

/-! ## Answers from a slot -/

/-- A lookup that finds what it wants in the slot, and whose handle is dropped. -/
theorem bypasses_hit {wanted : Wanted} {p : PayloadId} (h : w.Sane f)
    (hc : w.cached? host wanted c = (some p, w')) :
    w.Bypasses f (w'.onStore (·.release [.payload p])) f := by
  have hslot := (w.minds_cached? (S := fun _ _ => True) host wanted c).frame f
  have hdrop := (Minds.release (S := fun _ _ => True) w' [.payload p]).frame f
  have hsheds := sheds_of_hit hc
  rw [hc] at hslot
  rw [zero_add] at hslot hdrop
  obtain ⟨r, hr, hf, -⟩ := cached?_eq_some_iff.1 (congrArg Prod.fst hc)
  have hw' := hc
  rw [cached?_of_fresh hr hf] at hw'
  cases hw'
  refine .of_sheds h (hsheds.trans (Store.sheds_release _ _)) ?_ rfl rfl rfl
    (hdrop.exact (hslot.exact h.exact)) fun _ _ => id
  exact ((w.store.ages_retain _).record _).trans (Store.ages_release _ _)

end World

end MetaCache
