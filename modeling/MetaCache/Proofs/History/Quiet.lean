import MetaCache.Proofs.Compile.Books
import MetaCache.Proofs.History.Registry
import MetaCache.Proofs.Ownership.Slot
/-!
# Hosts that only answer

A host whose introspection methods have no side effects may count its calls, share what it has and
make new cells for its replies, but it redefines nothing. A lookup on such a host comes to one of
three ends, in worlds between which no class has moved.

* `World.Upkeep`: what the cache does on its own.
* `Host.Still`, `Host.Quiet`: two worlds between which nothing was redefined.
* `Host.SideEffectFree`: a host whose introspection methods redefine nothing.
* `Lookup.Compiles`: what a lookup compiles when it finds nothing fresh.
* `Lookup.Ends`, `Lookup.ends`: how a lookup on such a host ends.
-/

namespace MetaCache

variable {host : Host} {w w' w'' : World} {f f' f'' : Holding}

/-! ## Upkeep -/

/-- The settings of a cache: all of it but what it keeps book of. -/
def Cache.settings (c : Cache) : Config × Classifier × (String → UInt32) :=
  (c.config, c.classifier, c.nameHash)

/-- What the cache does on its own: no referent, no payload that was there, no name of the registry
and no setting of the cache has changed. -/
structure World.Upkeep (w w' : World) : Prop where
  keeps : w.store.Keeps w'.store
  classes : w'.registry.classes = w.registry.classes
  methods : w'.registry.methods = w.registry.methods
  session : w'.session = w.session
  settings : w'.cache.settings = w.cache.settings

namespace World.Upkeep

theorem refl (w : World) : w.Upkeep w :=
  ⟨(Store.Sheds.refl _).keeps, rfl, rfl, rfl, rfl⟩

theorem trans (h : w.Upkeep w') (h' : w'.Upkeep w'') : w.Upkeep w'' :=
  ⟨h.keeps.trans h'.keeps, h'.classes.trans h.classes, h'.methods.trans h.methods,
    h'.session.trans h.session, h'.settings.trans h.settings⟩

theorem onStore {s : Store → Store} (h : w.store.Keeps (s w.store)) : w.Upkeep (w.onStore s) :=
  ⟨h, rfl, rfl, rfl, rfl⟩

theorem release (w : World) (os : List Owned) : w.Upkeep (w.onStore (·.release os)) :=
  onStore (Store.sheds_release _ _).keeps

theorem retain (w : World) (os : List Owned) : w.Upkeep (w.onStore (·.retain os)) :=
  onStore (Store.sheds_retain _ _).keeps

theorem note (w : World) (n : Note) : w.Upkeep (w.onStore (·.note n)) :=
  onStore (Store.sheds_record _ _).keeps

theorem key (w : World) (name : String) : w.Upkeep (w.key name).2 := by
  have h := (w.sheds_key name).keeps
  unfold World.key at h ⊢
  split
  · rename_i hs
    rw [if_pos hs] at h
    exact ⟨h, rfl, rfl, rfl, rfl⟩
  · rename_i hs
    rw [if_neg hs] at h
    exact ⟨h, rfl, rfl, rfl, rfl⟩

theorem discard (w : World) (target : CellId) (r : Record) (n : Note) :
    w.Upkeep (w.discard target r n) :=
  ⟨w.keeps_discard target r n, rfl, rfl, rfl, rfl⟩

theorem publish (w : World) (target : CellId) (p : Payload) (generation : Nat)
    (governor : CellId) : w.Upkeep (w.publish target p generation governor).2 :=
  ⟨w.keeps_publish target p generation governor, rfl, rfl, rfl, rfl⟩

theorem cached? (w : World) (host : Host) (wanted : Wanted) (c : CellId) :
    w.Upkeep (w.cached? host wanted c).2 := by
  cases hx : w.store.extension? c with
  | none =>
    rw [World.cached?_of_none host wanted hx]
    exact .refl w
  | some r =>
    by_cases hf : w.isFresh host wanted r
    · rw [World.cached?_of_fresh hx hf]
      exact ⟨((w.store.sheds_retain _).trans (Store.sheds_record _ _)).keeps, rfl, rfl, rfl, rfl⟩
    · rw [World.cached?_of_stale hx hf]
      exact .discard w c r _

end World.Upkeep

/-! ## Worlds at rest -/

namespace Host

/-- A world and a later one, with every class still there under the generation and the names that it
had. -/
structure Still (host : Host) (w w' : World) : Prop extends host.Later w w' where
  generation_eq : ∀ {c}, c < w.store.cells.next → w'.store.alive c →
    host.generation w' c = host.generation w c
  classes : w'.registry.classes = w.registry.classes

/-- A change that redefines nothing. -/
structure Quiet (host : Host) (w : World) (f : Holding) (w' : World) (f' : Holding) : Prop
    extends host.Change w f w' f', host.Still w w'

/-- What metaobjects are asked redefines nothing, and writes no extension slot. Other methods may do
anything. -/
structure SideEffectFree (host : Host) : Prop where
  quiet : ∀ {q : Query}, host.Answers q →
    host.Quiet q.before 0 q.after (holding (ownedByReply q.reply))

end Host

/-- The deeds of a query to which host code does nothing but reply. -/
def quietDeeds (q : Query) : List Deed := [.changed q.before q.after]

theorem Host.SideEffectFree.activity (hs : host.SideEffectFree) {q : Query} (hq : host.Answers q) :
    Activity host q.before 0 (quietDeeds q) q.after (holding (ownedByReply q.reply)) :=
  .change (hs.quiet hq).toChange

namespace Host.Still

theorem refl (w : World) : host.Still w w := ⟨.refl w, fun _ _ => rfl, rfl⟩

theorem trans (h : host.Still w w') (h' : host.Still w' w'') : host.Still w w'' where
  toLater := h.toLater.trans h'.toLater
  generation_eq hc ha := by
    have hc' := Nat.lt_of_lt_of_le hc h.cells_next
    exact (h'.generation_eq hc' ha).trans (h.generation_eq hc (h'.alive hc' ha))
  classes := h'.classes.trans h.classes

theorem of_upkeep (ho : host.Orderly) (h : w.Upkeep w') : host.Still w w' where
  toLater := later_of_keeps ho h.keeps
  generation_eq _ ha := ho.generation (h.keeps.referent?_eq ha)
  classes := h.classes

end Host.Still

namespace Host.Quiet

theorem refl (w : World) (f : Holding) : host.Quiet w f w f :=
  ⟨.refl w f, fun _ _ => rfl, rfl⟩

theorem trans (h : host.Quiet w f w' f') (h' : host.Quiet w' f' w'' f'') :
    host.Quiet w f w'' f'' where
  toChange := h.toChange.trans h'.toChange
  generation_eq := (h.toStill.trans h'.toStill).generation_eq
  classes := h'.classes.trans h.classes

theorem frame (h : host.Quiet w f w' f') (g : Holding) : host.Quiet w (f + g) w' (f' + g) where
  toChange := h.toChange.frame g
  generation_eq := h.generation_eq
  classes := h.classes

theorem of_sheds (ho : host.Orderly) (h : w.store.Sheds w'.store)
    (hreg : w'.registry.classes = w.registry.classes)
    (hcov : ∀ g, w.Covers (f + g) → w'.Covers (f' + g)) : host.Quiet w f w' f' where
  toCalm := calm_of_sheds ho h
  covers := hcov
  generation_eq _ ha := ho.generation (h.keeps.referent?_eq ha)
  classes := hreg

theorem of_retain (ho : host.Orderly) {os : List Owned}
    (hos : ∀ g, w.Covers (f + g) → ∀ o ∈ os, w.store.present o) :
    host.Quiet w f (w.onStore (·.retain os)) (holding os + f) :=
  .of_sheds ho (Store.sheds_retain _ _) rfl (change_retain ho hos).covers

end Host.Quiet

/-- The ledger of the computations that redefine nothing. -/
def quietly (ho : host.Orderly) (hs : host.SideEffectFree) : Ledger host where
  Step := host.Quiet
  refl := .refl
  trans := .trans
  frame g h := h.frame g
  release w os := .of_sheds ho (Store.sheds_release _ _) rfl fun g h => by
    rw [zero_add]
    exact h.release
  note w n := .of_sheds ho (Store.sheds_record _ _) rfl fun _ h => h
  retainWeak w c := .of_sheds ho (Store.sheds_retain _ _) rfl fun g h => by
    rw [zero_add] at h
    exact h.retain fun o ho => by rw [List.mem_singleton.1 ho]; rfl
  retainClass hc := .of_sheds ho (Store.sheds_retain _ _) rfl fun g h => by
    rw [zero_add] at h
    exact h.retain fun o ho' => by
      rw [List.mem_singleton.1 ho']
      exact ho.class? h hc
  key w name := .of_sheds ho (w.sheds_key name) (World.Upkeep.key w name).classes fun g h => by
    rw [zero_add] at h
    exact h.key name
  upgrade w v := .of_sheds ho (w.store.sheds_upgrade v) rfl fun g h =>
    h.withStore fun k hk => hk.upgrade
  query hq := hs.quiet hq

/-! ## Lookups -/

theorem World.sheds_of_hit {wanted : Wanted} {c : CellId} {p : PayloadId}
    (h : w.cached? host wanted c = (some p, w')) : w.store.Sheds w'.store := by
  obtain ⟨r, hr, hf, -⟩ := World.cached?_eq_some_iff.1 (congrArg Prod.fst h)
  rw [World.cached?_of_fresh hr hf] at h
  cases h
  exact (w.store.sheds_retain _).trans (Store.sheds_record _ _)

/-- A lookup that finds nothing fresh leaves the slot empty. -/
theorem World.extension?_of_miss {wanted : Wanted} {target c : CellId}
    (h : w.cached? host wanted target = (none, w')) (ha : w'.store.alive c) :
    w'.store.extension? c = if c = target then none else w.store.extension? c := by
  rcases World.miss_cases h with ⟨hx, rfl⟩ | ⟨r, -, rfl⟩
  · split
    · rename_i hc
      rw [hc, hx]
    · rfl
  · exact World.extension?_discard ha

namespace Lookup

/-- The compilation alone, of which nothing is put into a slot. -/
def fresh (host : Host) : Lookup → Build Payload
  | shadow inst => do
    let s ← Shadow.compile host inst
    return .shadow s
  | descriptor attr _ => do
    let d ← Descriptor.compile host attr
    return .descriptor d

/-- The lookup compiles its object from `w` on, and ends in `w'` with the payload, the generation
and the class under which it is to be put into the slot. -/
inductive Compiles (host : Host) : Lookup → World → Payload → Nat → CellId → World → Prop where
  | shadow {inst : Value} {w w' : World} {s : Shadow} :
    Shadow.compile host inst w = .ok (.ok s, w') →
    Compiles host (.shadow inst) w (.shadow s) s.generation s.cls w'
  | descriptor {attr : Value} {cls : CellId} {w w' : World} {d : Descriptor} :
    Descriptor.compile host attr w = .ok (.ok d, w') →
    Compiles host (.descriptor attr cls) w (.descriptor d) (host.generation w cls) cls w'

/-- How a lookup of the cell `c` ends: with what it found in the slot, with a failure, or with what
it compiled and put into the slot. -/
inductive Ends (host : Host) (l : Lookup) (c : CellId) (w : World) :
    Except Error PayloadId → World → Prop where
  | hit {p : PayloadId} {w' : World} : w.cached? host l.wanted c = (some p, w') →
    Ends host l c w (.ok p) w'
  | failed {e : Error} {w₁ w' : World} : w.cached? host l.wanted c = (none, w₁) →
    l.fresh host w₁ = .ok (.error e, w') → host.Quiet w₁ 0 w' (holding e.owned) →
    Ends host l c w (.error e) w'
  | built {x : Payload} {generation : Nat} {governor : CellId} {w₁ w₂ : World} :
    w.cached? host l.wanted c = (none, w₁) → l.fresh host w₁ = .ok (.ok x, w₂) →
    l.Compiles host w₁ x generation governor w₂ → host.Quiet w₁ 0 w₂ (holding [.held x]) →
    Ends host l c w (.ok w₂.store.payloads.next) (w₂.publish c x generation governor).2

/-- What a lookup that finds nothing fresh makes of its compilation. -/
theorem build_cases (host : Host) (l : Lookup) (c : CellId) (w : World) :
    (∃ h, l.fresh host w = .error h ∧ l.build host c w = .error h) ∨
    (∃ e w', l.fresh host w = .ok (.error e, w') ∧ l.build host c w = .ok (.error e, w')) ∨
    ∃ x g gov w', l.fresh host w = .ok (.ok x, w') ∧ l.Compiles host w x g gov w' ∧
      l.build host c w = .ok (.ok w'.store.payloads.next, (w'.publish c x g gov).2) := by
  cases l with
  | shadow inst =>
    rw [fresh, build, buildShadow, Build.bind_apply, Build.bind_apply]
    cases hx : Shadow.compile host inst w with
    | error h => exact .inl ⟨h, rfl, rfl⟩
    | ok a =>
      obtain ⟨r, w'⟩ := a
      cases r with
      | error e => exact .inr (.inl ⟨e, w', rfl, rfl⟩)
      | ok s => exact .inr (.inr ⟨_, _, _, w', rfl, .shadow hx, rfl⟩)
  | descriptor attr cls =>
    rw [fresh, build, buildDescriptor_apply, Build.bind_apply, Build.bind_apply]
    cases hx : Descriptor.compile host attr w with
    | error h => exact .inl ⟨h, rfl, rfl⟩
    | ok a =>
      obtain ⟨r, w'⟩ := a
      cases r with
      | error e => exact .inr (.inl ⟨e, w', rfl, rfl⟩)
      | ok d => exact .inr (.inr ⟨_, _, _, w', rfl, .descriptor hx, rfl⟩)

/-- Compiling ends with the structure held. -/
theorem meets_fresh {L : Ledger host} (l : Lookup) :
    L.Meets (l.fresh host) 0 fun x => holding [.held x] := by
  cases l with
  | shadow inst =>
    exact Ledger.Meets.bind (Ledger.meets_compile_shadow inst) fun s =>
      Ledger.meets_pure (.shadow s) fun x => holding [.held x]
  | descriptor attr _ =>
    refine Ledger.Meets.bind (Ledger.meets_compile attr) fun d => ?_
    have hd : holding d.owned = holding [.held (.descriptor d)] :=
      (holding_held (.descriptor d)).symm
    rw [hd]
    exact Ledger.meets_pure (.descriptor d) fun x => holding [.held x]

/-- A lookup on a host without side effects. -/
theorem ends (ho : host.Orderly) (hs : host.SideEffectFree) {l : Lookup} {c : CellId}
    {r : Except Error PayloadId} (hl : l.object = .ref c) (h : l.run host w = .ok (r, w')) :
    l.Ends host c w r w' := by
  rw [run_eq hl] at h
  cases hc : w.cached? host l.wanted c with
  | mk o w₁ =>
    rw [hc] at h
    cases o with
    | some p =>
      cases h
      exact .hit hc
    | none =>
      dsimp only at h
      have hquiet : ∀ r w', l.fresh host w₁ = .ok (r, w') →
          host.Quiet w₁ 0 w' (outcome (fun x => holding [.held x]) r) := fun r w' hr => by
        exact (meets_fresh (L := quietly ho hs) l w₁).done r w' hr
      rcases build_cases host l c w₁ with ⟨e, -, hb⟩ | ⟨e, w₂, hf, hb⟩ | ⟨x, g, gov, w₂, hf, hx, hb⟩
      · cases hb.symm.trans h
      · cases hb.symm.trans h
        exact .failed hc hf (hquiet _ _ hf)
      · cases hb.symm.trans h
        exact .built hc hf hx (hquiet _ _ hf)

/-- A lookup of anything but a strong reference fails and does nothing. -/
theorem eq_of_no_ref {l : Lookup} {r : Except Error PayloadId} (hl : ∀ c, l.object ≠ .ref c)
    (h : l.run host w = .ok (r, w')) : w' = w ∧ ∃ e, r = .error e := by
  rw [run] at h
  generalize l.object = v at hl h
  cases v with
  | ref c => exact absurd rfl (hl c)
  | _ =>
    cases h
    exact ⟨rfl, _, rfl⟩

/-- A lookup redefines nothing. -/
theorem Ends.still (ho : host.Orderly) {l : Lookup} {c : CellId} {r : Except Error PayloadId}
    (h : l.Ends host c w r w') : host.Still w w' := by
  have hslot := Host.Still.of_upkeep ho (.cached? w host l.wanted c)
  cases h with
  | hit hc => rwa [hc] at hslot
  | failed hc _ hq =>
    rw [hc] at hslot
    exact hslot.trans hq.toStill
  | @built x g gov w₁ w₂ hc _ _ hq =>
    rw [hc] at hslot
    exact (hslot.trans hq.toStill).trans (.of_upkeep ho (.publish w₂ c x g gov))

/-- A record that is in a slot after a lookup was there before, or it is the one of what the lookup
has compiled. -/
theorem Ends.extension?_cases {l : Lookup} {target c : CellId} {o : Except Error PayloadId}
    {r : Record} (h : l.Ends host target w o w') (ha : w'.store.alive c)
    (hx : w'.store.extension? c = some r) : w.store.extension? c = some r ∨
      (c = target ∧ ∃ x g gov w₁ w₂, w.cached? host l.wanted target = (none, w₁) ∧
        l.fresh host w₁ = .ok (.ok x, w₂) ∧ l.Compiles host w₁ x g gov w₂ ∧
        w' = (w₂.publish target x g gov).2 ∧ r = ⟨w₂.store.payloads.next, g, gov⟩) := by
  -- the slot of the object was empty before anything was put into it
  have hmiss {w₁ : World} (hm : w.cached? host l.wanted target = (none, w₁))
      (hx₁ : w₁.store.extension? c = some r) : w.store.extension? c = some r := by
    rw [World.extension?_of_miss hm (Store.alive_of_extension? hx₁)] at hx₁
    split at hx₁
    · cases hx₁
    · exact hx₁
  cases h with
  | hit hc => exact .inl (((World.sheds_of_hit hc).extension?_eq ha).symm.trans hx)
  | failed hm _ hq =>
    rw [hq.extension? ha] at hx
    exact .inl (hmiss hm hx)
  | @built x g gov w₁ w₂ hm hf hcomp hq =>
    have ha₂ := (w₂.keeps_publish target x g gov).alive ha
    rw [World.extension?_publish ha] at hx
    split at hx
    · rename_i ht
      cases hx
      exact .inr ⟨ht, x, g, gov, w₁, w₂, hm, hf, hcomp, rfl, rfl⟩
    · rw [hq.extension? ha₂] at hx
      exact .inl (hmiss hm hx)

end Lookup

/-- A record that was in the slot before holds what it held then. -/
theorem World.Covers.payload?_of_later {r : Record} {x : Payload} {c : CellId} (hcov : w.Covers f)
    (hl : host.Later w w') (hr : w.store.extension? c = some r)
    (hx : w'.store.payload? r.payload = some x) : w.store.payload? r.payload = some x := by
  refine hl.payload? ?_ hx
  obtain ⟨y, hy⟩ := Option.isSome_iff_exists.1 (Store.Covers.payload_isSome hcov hr)
  obtain ⟨e, he, -⟩ := Option.map_eq_some_iff.1 hy
  exact Table.lt_next_of_find? he

end MetaCache
