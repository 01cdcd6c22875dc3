import MetaCache.Host.Registry
import MetaCache.Proofs.History.Activity
/-!
# The registry in a run

What a script does with classes and metaobjects is among the things that host code may do: no
operation of the registry writes an extension slot, takes a generation back or uses up a share that
is not its own.

* `Host.Registered`: a host whose classes are those of the registry.
* `change_defineClass`, `change_removeClass`, `change_bumpClass`, `change_setAttributes`: classes.
* `class?_defineClass`, `class?_removeClass`: names.
* `change_setBehavior`: the answers of metaobjects.
* `change_newCell`, `change_retain`, `change_release`: references.
-/

namespace MetaCache

/-- The host finds its classes, and their generations, in the registry. -/
structure Host.Registered (host : Host) : Prop where
  class? : host.class? = World.class?
  generation : host.generation = World.generation

variable {host : Host} {w w' : World} {c : CellId} {o : Object} {f g : Holding}

theorem World.objectIn?_eq_some :
    w.objectIn? c = some o ↔ w.store.referent? c = some (.object o) := by
  simp only [World.objectIn?, Store.object?, Value.strong?, Option.bind_eq_bind, Option.bind_some]
  cases w.store.referent? c with
  | none => simp
  | some r => cases r <;> simp

theorem World.objectIn?_congr (h : w'.store.referent? c = w.store.referent? c) :
    w'.objectIn? c = w.objectIn? c := by
  simp only [World.objectIn?, Store.object?, Value.strong?, Option.bind_eq_bind, Option.bind_some,
    h]

/-- What is in the cells after an object was changed. -/
theorem World.referent?_setObject {o' : Object} (ho : w.objectIn? c = some o) (d : CellId) :
    (w.onStore (·.setReferent c (.object o'))).store.referent? d =
      if d = c then some (.object o') else w.store.referent? d := by
  rw [World.onStore, Store.referent?_setReferent]
  split
  · rename_i hd
    rw [hd, objectIn?_eq_some.1 ho]
    rfl
  · rfl

theorem World.objectIn?_setObject {o' : Object} (ho : w.objectIn? c = some o) (d : CellId) :
    (w.onStore (·.setReferent c (.object o'))).objectIn? d =
      if d = c then some o' else w.objectIn? d := by
  have href : (w.onStore (·.setReferent c (.object o'))).store.referent? d = _ :=
    referent?_setObject ho d
  by_cases hd : d = c
  · rw [if_pos hd] at href ⊢
    exact objectIn?_eq_some.2 href
  · rw [if_neg hd] at href ⊢
    exact objectIn?_congr href

/-- What the registry or a variable holds is there. -/
theorem World.Covers.alive_of_root (h : w.Covers f) (hm : Owned.cell c ∈ w.roots) :
    w.store.alive c :=
  Store.Covers.alive h (Nat.add_pos_right _ (Nat.add_pos_left (holding_pos rfl hm) _))

theorem World.Covers.alive_of_registered (h : w.Covers f) {e : String × CellId}
    (he : e ∈ w.registry.classes) : w.store.alive e.2 := by
  refine h.alive_of_root ?_
  simp only [roots, List.mem_append, List.mem_map]
  exact .inl (.inl ⟨e, he, rfl⟩)

theorem World.Covers.alive_of_class? {name : String} (h : w.Covers f)
    (hc : w.class? name = some c) : w.store.alive c :=
  h.alive_of_registered (mem_of_lookup hc)

theorem Host.Registered.orderly (hr : host.Registered) : host.Orderly where
  generation h := by
    rw [hr.generation, World.generation, World.generation, World.objectIn?_congr h]
  class? hcov hc := by
    rw [hr.class?] at hc
    exact hcov.alive_of_class? hc

/-! ## References -/

theorem change_release (ho : host.Orderly) (w : World) (os : List Owned) :
    host.Change w (holding os) (w.onStore (·.release os)) 0 where
  toCalm := Host.calm_of_sheds ho (Store.sheds_release _ _)
  covers g h := by
    rw [zero_add]
    exact h.release

theorem change_retain (ho : host.Orderly) {os : List Owned}
    (hos : ∀ g, w.Covers (f + g) → ∀ o ∈ os, w.store.present o) :
    host.Change w f (w.onStore (·.retain os)) (holding os + f) where
  toCalm := Host.calm_of_sheds ho (Store.sheds_retain _ _)
  covers g h := by
    rw [add_assoc]
    exact h.retain (hos g h)

/-! ## Objects -/

section

variable {k : Object → Object} {f' : Holding}

theorem modifyObject_of_none (h : w.objectIn? c = none) (k : Object → Object) :
    w.modifyObject c k = w := by
  rw [World.modifyObject, h]

theorem modifyObject_of_some (h : w.objectIn? c = some o) (k : Object → Object) :
    w.modifyObject c k = w.onStore (·.setReferent c (.object (k o))) := by
  rw [World.modifyObject, h]

theorem calm_modifyObject (hr : host.Registered) (hk : ∀ o, o.generation ≤ (k o).generation)
    (w : World) (c : CellId) : host.Calm w (w.modifyObject c k) := by
  cases ho : w.objectIn? c with
  | none => rw [modifyObject_of_none ho]; exact .refl w
  | some o =>
    rw [modifyObject_of_some ho]
    refine { cells_next := Nat.le_refl _, payloads_next := Nat.le_refl _, alive := ?_,
             payload? := fun _ h => h, generation := ?_, extension? := ?_ }
    · intro d _ hd
      exact (Store.alive_writeCell _ c d _).symm.trans hd
    · intro d _ _
      rw [hr.generation, World.generation, World.generation, World.objectIn?_setObject ho]
      split
      · rename_i hd
        rw [hd, ho]
        exact hk o
      · exact Nat.le_refl _
    · intro d _
      exact Store.extension?_setReferent _ c d _

/-- Changing an object takes the shares it needs from its holder. -/
theorem change_modifyObject (hr : host.Registered) (hk : ∀ o, o.generation ≤ (k o).generation)
    (hf : ∀ o, w.objectIn? c = some o → ∀ x,
      holding (k o).owned x + f' x ≤ holding o.owned x + f x)
    (hn : w.objectIn? c = none → ∀ x, f' x ≤ f x) :
    host.Change w f (w.modifyObject c k) f' where
  toCalm := calm_modifyObject hr hk w c
  covers g h := by
    cases ho : w.objectIn? c with
    | none =>
      rw [modifyObject_of_none ho]
      refine Store.Covers.mono h fun x => ?_
      have := hn ho x
      simp only [Pi.add_apply]
      omega
    | some o =>
      rw [modifyObject_of_some ho]
      obtain ⟨y, hy, hyr⟩ := Option.map_eq_some_iff.1 (World.objectIn?_eq_some.1 ho)
      refine h.withStore fun g hg => hg.writeCell hy fun x => ?_
      have := hf o ho x
      rw [Cell.owned, Cell.owned, hyr]
      simp only [holding_append, Pi.add_apply, Referent.owned]
      omega

end

/-! ## Classes -/

theorem Object.generation_withAttributes (attrs : List Value) (o : Object) :
    (o.withAttributes attrs).generation = o.generation := by
  cases o <;> rfl

theorem Object.generation_le_bumped (o : Object) : o.generation ≤ o.bumped.generation := by
  cases o with
  | classMeta _ g _ => exact Nat.le_succ g
  | _ => exact Nat.le_refl _

/-- A redefined class is a generation further. -/
theorem change_bumpClass (hr : host.Registered) (c : CellId) (w : World) :
    host.Change w 0 (w.bumpClass c).2 0 := by
  refine change_modifyObject hr Object.generation_le_bumped (fun o _ x => ?_) fun _ _ =>
    Nat.le_refl _
  cases o <;> exact Nat.le_refl _

/-- New attributes are taken from the caller, and the old ones given back. -/
theorem change_setAttributes (hr : host.Registered) (c : CellId) (attrs : List Value) (w : World) :
    host.Change w (holding (ownedByAll attrs)) (w.setAttributes c attrs) 0 := by
  refine Host.Change.trans (change_modifyObject hr ?_ ?_ ?_) (change_release hr.orderly _ _)
  · exact fun o => Nat.le_of_eq (o.generation_withAttributes attrs).symm
  · intro o ho x
    rw [ho, Option.map_some, Option.getD_some]
    cases o with
    | classMeta n g old =>
      show holding (ownedByAll attrs) x + holding (ownedByAll old) x ≤ _
      exact Nat.le_of_eq (Nat.add_comm _ _)
    | _ => exact Nat.le_add_right _ _
  · intro ho x
    rw [ho]
    exact Nat.zero_le _

theorem change_newCell (ho : host.Orderly) (r : Referent) (w : World) :
    host.Change w (holding r.owned) (w.onStore fun s => (s.newCell r).2)
      (holding [.cell w.store.cells.next]) where
  toCalm := by
    refine { cells_next := Nat.le_succ _, payloads_next := Nat.le_refl _, alive := ?_,
             payload? := fun _ h => h, generation := ?_, extension? := ?_ }
    · intro d hd ha
      exact (w.store.alive_newCell_of_ne r (Nat.ne_of_lt hd)).symm.trans ha
    · intro d hd _
      refine Nat.le_of_eq (ho.generation ?_).symm
      exact (w.store.referent?_newCell r d).trans (if_neg (Nat.ne_of_lt hd))
    · intro d _
      exact w.store.extension?_newCell r d
  covers g h := h.withStore fun k hk => hk.newCell

theorem holding_removeNamed (name : String) (es : List (String × CellId)) (x : Share) :
    holding ((es.filter fun e => e.1 != name).map fun e => .cell e.2) x +
      holding (ownedByCell? (es.lookup name)) x ≤ holding (es.map fun e => .cell e.2) x := by
  induction es with
  | nil => exact Nat.le_refl _
  | cons e rest ih =>
    obtain ⟨n, d⟩ := e
    rw [List.map_cons, holding_cons, Pi.add_apply, List.lookup_cons]
    by_cases hn : name = n
    · subst hn
      simp only [bne_self_eq_false, Bool.false_eq_true, not_false_eq_true, List.filter_cons_of_neg,
        beq_self_eq_true, ownedByCell?]
      omega
    · have hne : (n != name) = true := by simpa using Ne.symm hn
      have hbeq : (name == n) = false := by simpa using hn
      rw [List.filter_cons_of_pos (p := fun e : String × CellId => e.1 != name) hne,
        List.map_cons, holding_cons, Pi.add_apply, hbeq]
      simp only
      omega

/-- A class that is removed from its name is handed over. -/
theorem change_removeClass (ho : host.Orderly) (name : String) (w : World) :
    host.Change w 0 (w.removeClass name).2 (holding (ownedByCell? (w.removeClass name).1)) where
  toCalm := Host.calm_of_sheds ho (.refl w.store)
  covers g h := by
    refine Store.Covers.mono (s := w.store) h fun x => ?_
    have := holding_removeNamed name w.registry.classes x
    simp only [World.removeClass, World.roots, World.class?, holding_append, Pi.add_apply,
      Pi.zero_apply]
    omega

theorem putNamed_of_lookup_eq_none {α : Type} {name : String} {es : List (String × α)}
    (h : es.lookup name = none) (a : α) : putNamed name a es = es ++ [(name, a)] := by
  induction es with
  | nil => rfl
  | cons e rest ih =>
    obtain ⟨n, old⟩ := e
    rw [List.lookup_cons] at h
    by_cases hn : name = n
    · simp [hn] at h
    · rw [beq_false_of_ne hn] at h
      rw [putNamed, if_neg (Ne.symm hn), ih h, List.cons_append]

theorem change_nameClass (ho : host.Orderly) {name : String} (h : w.class? name = none)
    (c : CellId) : host.Change w (holding [.cell c])
      { w with registry := { w.registry with classes := putNamed name c w.registry.classes } }
      0 where
  toCalm := Host.calm_of_sheds ho (.refl w.store)
  covers g hg := by
    refine Store.Covers.mono (s := w.store) hg fun x => ?_
    simp only [World.roots, putNamed_of_lookup_eq_none h, List.map_append, List.map_cons,
      List.map_nil, holding_append, Pi.add_apply, Pi.zero_apply]
    omega

/-- Defining a class takes its attributes from the caller, who gets a share of the class. -/
theorem change_defineClass (hr : host.Registered) (name : String) (attrs : List Value) (w : World) :
    host.Change w (holding (ownedByAll attrs)) (w.defineClass name attrs).2
      (holding [.cell (w.defineClass name attrs).1]) := by
  cases hc : w.class? name with
  | some c =>
    have hdef : w.defineClass name attrs =
        (c, (((w.onStore (·.retain [.cell c])).setAttributes c attrs).bumpClass c).2) := by
      rw [World.defineClass, hc]
    have hret := change_retain hr.orderly (f := holding (ownedByAll attrs))
      fun g hg o (ho : o ∈ [Owned.cell c]) => by
        rw [List.mem_singleton.1 ho]
        exact hg.alive_of_class? hc
    rw [add_comm] at hret
    have hset := (change_setAttributes hr c attrs (w.onStore (·.retain [.cell c]))).frame
      (holding [.cell c])
    have hbump := (change_bumpClass hr c
      ((w.onStore (·.retain [.cell c])).setAttributes c attrs)).frame (holding [.cell c])
    have h := (hret.trans hset).trans hbump
    rw [zero_add] at h
    rwa [hdef]
  | none =>
    have hnew := change_newCell hr.orderly (.object (.classMeta name 0 attrs)) w
    have hret := change_retain hr.orderly
      (w := w.onStore fun s => (s.newCell (.object (.classMeta name 0 attrs))).2)
      (f := holding [.cell w.store.cells.next])
      fun g hg o (ho : o ∈ [Owned.cell w.store.cells.next]) => by
        rw [List.mem_singleton.1 ho]
        refine hg.alive ?_
        rw [Pi.add_apply, holding_plain rfl, if_pos rfl]
        omega
    have hname := (change_nameClass hr.orderly (w := (w.onStore fun s =>
      (s.newCell (.object (.classMeta name 0 attrs))).2).onStore
        (·.retain [.cell w.store.cells.next])) hc w.store.cells.next).frame
      (holding [.cell w.store.cells.next])
    have h := (hnew.trans hret).trans hname
    rw [zero_add] at h
    rw [World.defineClass, hc]
    exact h

/-! ## Names -/

theorem World.registry_modifyObject (w : World) (c : CellId) (k : Object → Object) :
    (w.modifyObject c k).registry = w.registry := by
  unfold World.modifyObject
  split <;> rfl

theorem World.cache_modifyObject (w : World) (c : CellId) (k : Object → Object) :
    (w.modifyObject c k).cache = w.cache := by
  unfold World.modifyObject
  split <;> rfl

/-- A class that is defined has its name from then on, and it is a new one unless there was one of
that name. -/
theorem class?_defineClass (name n : String) (attrs : List Value) (w : World) :
    (w.defineClass name attrs).2.class? n =
      if n = name then some ((w.class? name).getD w.store.cells.next) else w.class? n := by
  cases hc : w.class? name with
  | some c =>
    have hreg : (w.defineClass name attrs).2.registry = w.registry := by
      rw [World.defineClass, hc]
      exact (World.registry_modifyObject _ _ _).trans (World.registry_modifyObject _ _ _)
    rw [World.class?, hreg]
    split
    · rename_i hn
      rw [hn]
      exact hc
    · rfl
  | none =>
    rw [World.defineClass, hc]
    exact lookup_putNamed name n _ _

theorem lookup_removeNamed (name n : String) (es : List (String × CellId)) :
    (es.filter fun e => e.1 != name).lookup n = if n = name then none else es.lookup n := by
  induction es with
  | nil => simp
  | cons e rest ih =>
    obtain ⟨m, c⟩ := e
    rw [List.filter_cons]
    by_cases hm : m = name
    · subst hm
      rw [if_neg (by simp), ih, List.lookup_cons]
      by_cases hn : n = m
      · simp [hn]
      · simp [hn, beq_false_of_ne hn]
    · rw [if_pos (by simpa using hm), List.lookup_cons, List.lookup_cons]
      by_cases hn : n = m
      · subst hn
        simp [hm]
      · simp [beq_false_of_ne hn, ih]

/-- A class that is removed has lost its name, and no other class has. -/
theorem class?_removeClass (name n : String) (w : World) :
    (w.removeClass name).2.class? n = if n = name then none else w.class? n :=
  lookup_removeNamed name n w.registry.classes

/-! ## Metaobjects -/

theorem holding_putNamed (method : String) (b : Behavior) (bs : Behaviors) (x : Share) :
    holding ((putNamed method b bs).flatMap fun e => e.2.owned) x + holding (bs.ownedBy method) x =
      holding (bs.flatMap fun e => e.2.owned) x + holding b.owned x := by
  induction bs with
  | nil => simp [putNamed, Behaviors.ownedBy]
  | cons e rest ih =>
    obtain ⟨n, old⟩ := e
    by_cases hn : n = method
    · subst hn
      simp only [putNamed, if_true, Behaviors.ownedBy, List.lookup_cons, BEq.rfl, Option.map_some,
        Option.getD_some, List.flatMap_cons, holding_append, Pi.add_apply]
      omega
    · have hbeq : (method == n) = false := by simpa using Ne.symm hn
      simp only [Behaviors.ownedBy] at ih
      simp only [putNamed, if_neg hn, Behaviors.ownedBy, List.lookup_cons, hbeq, List.flatMap_cons,
        holding_append, Pi.add_apply]
      omega

theorem Object.generation_withBehaviors (bs : Behaviors) (o : Object) :
    (o.withBehaviors bs).generation = o.generation := by
  cases o <;> rfl

/-- A new answer is taken from the caller, and the old one given back. -/
theorem change_setBehavior (hr : host.Registered) (c : CellId) (method : String) (b : Behavior)
    (w : World) : host.Change w (holding b.owned) (w.setBehavior c method b) 0 := by
  refine Host.Change.trans (change_modifyObject hr ?_ ?_ ?_) (change_release hr.orderly _ _)
  · exact fun o => Nat.le_of_eq (o.generation_withBehaviors _).symm
  · intro o ho x
    rw [ho, Option.map_some, Option.getD_some]
    cases o with
    | attributeMeta bs | instanceMeta _ bs =>
      exact Nat.le_of_eq (holding_putNamed method b bs x)
    | _ => exact Nat.le_add_right _ _
  · intro ho x
    rw [ho]
    exact Nat.zero_le _

end MetaCache
