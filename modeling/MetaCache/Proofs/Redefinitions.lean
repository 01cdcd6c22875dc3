import MetaCache.Proofs.CleanSlots
import MetaCache.Proofs.Custody.Hosts
import MetaCache.Proofs.Custody.Settled
/-!
# Redefinitions and the key table

Each redefinition of a class may bring other names. The names of what was compiled before leave the
key table when it is discarded, as the table is swept once the structure has been dropped. So a
caller who drops what he looks up never has more entries in the table than there are names in
attached structures, whatever he defines.

* `Host.Discreet`: hosts whose introspection methods have no side effects.
* `Careful`, `CarefulRun`: what a caller does who drops his handles at once.
* `CarefulRun.settled`: the key table is at rest after each operation.
* `redefinitions_leave_no_names`: the size of the table after a discard, and after a run.
-/

namespace MetaCache

variable {host : Host} {w₀ w w' : World} {f₀ f f' : Holding} {l : Lookup} {c : CellId}

/-! ## Discards -/

/-- Somebody holds each entry of the key table. -/
def World.Swept (w : World) : Prop := w.cache.keys.tracked = w.liveNames

theorem World.swept_discard (w : World) (c : CellId) (r : Record) (n : Note) :
    (w.discard c r n).Swept := by
  show (KeyTable.sweep _ _).1.tracked = (KeyTable.sweep _ _).1.liveCount (KeyTable.sweep _ _).2
  rw [KeyTable.tracked_sweep, KeyTable.liveCount_sweep]

theorem World.swept_invalidate {v : Value} (h : (w.invalidate v).1) : (w.invalidate v).2.Swept := by
  rw [World.invalidate] at h ⊢
  split at h
  · cases h
  · split at h
    · cases h
    · exact w.swept_discard _ _ _

theorem World.swept_cached? {wanted : Wanted} (hx : (w.store.extension? c).isSome)
    (hm : w.cached? host wanted c = (none, w')) : w'.Swept := by
  rcases World.miss_cases hm with ⟨hnone, -⟩ | ⟨r, -, rfl⟩
  · rw [hnone] at hx
    cases hx
  · exact w.swept_discard c r _

/-! ## Careful callers -/

/-- What metaobjects are asked has no side effects: nothing that is there changes, but for the
shares that a reply gives, which are counted, and the cache, the registry and the variables stay as
they are. -/
structure Host.Discreet (host : Host) : Prop extends host.OnlyReplies, host.SideEffectFree where
  minds : host.Minds fun _ _ => True
  ages : ∀ {q : Query}, host.Answers q → q.before.store.Ages q.after.store
  roots : ∀ {q : Query}, host.Answers q → q.after.roots = q.before.roots

/-- What a caller does who drops the handle that he gets at once. -/
inductive Careful (host : Host) : World → Holding → World → Holding → Prop where
  /-- A lookup that succeeds, after which the handle is dropped. -/
  | lookup {l : Lookup} {w w' : World} {p : PayloadId} (f : Holding) :
    l.run host w = .ok (.ok p, w') →
    Careful host w (holding l.owned + f) (w'.onStore (·.release [.payload p])) (holding l.owned + f)
  | invalidate (v : Value) (w : World) (f : Holding) : Careful host w f (w.invalidate v).2 f
  | define (name : String) (attrs : List Value) (w : World) (f : Holding) :
    Careful host w (holding (ownedByAll attrs) + f) (w.defineClass name attrs).2
      (holding [.cell (w.defineClass name attrs).1] + f)
  | bump (cls : CellId) (w : World) (f : Holding) : Careful host w f (w.bumpClass cls).2 f
  /-- Anything else that does not concern the cache. -/
  | other {w w' : World} {f f' : Holding} : w.Bypasses f w' f' → Careful host w f w' f'

/-- No cell whose slot is filled is finalized. -/
def World.Spares (w w' : World) : Prop :=
  ∀ c, (w.store.extension? c).isSome → w'.store.alive c

/-- Operations one after another, none of which finalizes a cell whose slot is filled. -/
inductive CarefulRun (host : Host) (w₀ : World) (f₀ : Holding) : World → Holding → Prop where
  | start : CarefulRun host w₀ f₀ w₀ f₀
  | step {w w' : World} {f f' : Holding} : CarefulRun host w₀ f₀ w f → Careful host w f w' f' →
    w.Spares w' → CarefulRun host w₀ f₀ w' f'

/-! ## Lookups -/

theorem Work.roots_eq {β : Type} (host : Host) (x : Work β) (w : World) :
    (x.apply host w).2.roots = w.roots := by
  cases x with
  | key name =>
    show (w.key name).2.roots = _
    rw [World.key]
    split <;> rfl
  | _ => rfl

/-- Compiling leaves the registry and the variables alone. -/
theorem Lookup.roots_of_fresh (hh : host.Discreet) {r : Except Error Payload}
    (h : l.fresh host w = .ok (r, w')) : w'.roots = w.roots := by
  let L : Ledger host := .ofRelation (R := fun w w' => w'.roots = w.roots)
    (fun _ => rfl) (fun h h' => h'.trans h) (fun x w => x.roots_eq host w) hh.roots
  exact (Lookup.meets_fresh (L := L) l w).done r w' h

/-- Compiling enters the keys of what is compiled into the key table. -/
theorem Lookup.Compiles.entered (hh : host.Discreet) {x : Payload} {generation : Nat}
    {governor : CellId} (hc : l.Compiles host w x generation governor w')
    (hs : w.cache.config.shareSlotKeys)
    (ht : w.cache.keys.Ordered w.cache.nameHash w.store) : w.Entered x.keys w' := by
  have hq {q : Query} (ha : host.Answers q) :
      q.after.cache = q.before.cache ∧ q.before.store.Ages q.after.store :=
    ⟨hh.cache ha, hh.ages ha⟩
  cases hc with
  | shadow h =>
    rw [← Dialogue.run_shadow] at h
    have he := (Dialogue.keeps_shadow host _).entered hq (.start hs ht) h
    exact he
  | descriptor h =>
    rw [← Dialogue.run_descriptor] at h
    have he := (Dialogue.keeps_descriptor [] _).entered hq (.start hs ht) h
    exact he

/-- A lookup that finds nothing fresh starts from a key table at rest. -/
theorem World.Settled.miss (h : w.Settled f) {wanted : Wanted}
    (hm : w.cached? host wanted c = (none, w')) : w'.Settled f := by
  rcases World.miss_cases hm with ⟨-, rfl⟩ | ⟨r, hr, rfl⟩
  · exact h
  · exact h.discard hr _

/-- A lookup that succeeds leaves the key table at rest once the handle is dropped. -/
theorem World.Settled.lookup (ho : host.Orderly) (hh : host.Discreet) {p : PayloadId}
    (h : w.Settled (holding l.owned + f)) (hrun : l.run host w = .ok (.ok p, w'))
    (hspares : w.Spares (w'.onStore (·.release [.payload p]))) :
    (w'.onStore (·.release [.payload p])).Settled (holding l.owned + f) := by
  obtain ⟨c, hl⟩ : ∃ c, l.object = .ref c := by
    by_contra hno
    obtain ⟨-, e, he⟩ := Lookup.eq_of_no_ref (fun c hc => hno ⟨c, hc⟩) hrun
    cases he
  have hexact : (w'.onStore (·.release [.payload p])).store.Exact
      (holding (w'.onStore (·.release [.payload p])).roots + (holding l.owned + f)) := by
    have hfound := (hh.minds.lookup hrun).frame f
    have hdrop := (World.Minds.release (S := fun _ _ => True) w' [.payload p]).frame
      (holding l.owned + f)
    rw [add_assoc] at hfound
    rw [zero_add] at hdrop
    exact hdrop.exact (hfound.exact h.exact)
  have hc {w'' : World} (hcov : w''.Covers (holding l.owned + f)) : w''.store.alive c :=
    hcov.alive (Nat.add_pos_left (Lookup.object_pos hl) _)
  cases Lookup.ends ho hh.toSideEffectFree hl hrun with
  | hit hhit => exact h.bypass (World.bypasses_hit h.toSane hhit) hspares
  | @built x generation governor w₁ w₂ hm hfresh hcomp hquiet =>
    have h₁ := h.miss hm
    have hknown : ∀ n ∈ w₁.cache.keys.names, (Share.name n.id).OldIn w₁.store := h₁.table.known
    -- compiling is a transaction that begins with the slot empty
    have hstep := (Lookup.meets_fresh (L := transacting ho hh.lends w₁
      (holding l.owned + f) h₁.exact.attended) l w₁).done _ _ hfresh
    have hongoing : Ongoing w₁ (holding l.owned + f) w₂ (holding [.held x]) := by
      have hend := hstep 0 (by
        rw [add_zero]
        exact .start h₁.covers h₁.exact.attended hknown)
      rwa [add_zero] at hend
    have hbuilt : World.Built host w₁ (holding l.owned + f) c x generation governor w₂ _ := {
      empty := by
        rw [World.extension?_of_miss hm (hc h₁.covers), if_pos rfl]
      ongoing := hongoing
      quiet := hquiet
      entered := hcomp.entered hh h₁.shares h₁.table
      roots := Lookup.roots_of_fresh hh hfresh
      dropped := rfl }
    refine hbuilt.settled h₁ hexact (hc hexact.covers) fun d hd => hspares d ?_
    -- a slot that is filled after the miss was filled before
    obtain ⟨r, hr⟩ := Option.isSome_iff_exists.1 hd
    have hslot := World.extension?_of_miss hm (Store.alive_of_extension? hr)
    rw [hr] at hslot
    split at hslot
    · cases hslot
    · exact Option.isSome_iff_exists.2 ⟨r, hslot.symm⟩

/-! ## Runs -/

/-- Each operation leaves the key table at rest. -/
theorem Careful.settled (ho : host.Orderly) (hh : host.Discreet) (hd : Careful host w f w' f')
    (h : w.Settled f) (hspares : w.Spares w') : w'.Settled f' := by
  cases hd with
  | lookup f hrun => exact h.lookup ho hh hrun hspares
  | invalidate v w f =>
    rcases w.invalidate_cases v with hi | ⟨d, r, n, hr, hi⟩
    · rw [hi]
      exact h
    · rw [hi]
      exact h.discard hr n
  | define name attrs w f => exact h.bypass (World.bypasses_defineClass h.toSane name) hspares
  | bump cls w f => exact h.bypass (World.bypasses_bumpClass h.toSane cls) hspares
  | other hb => exact h.bypass hb hspares

/-- An empty key table is at rest if nothing that has keys is attached. -/
theorem World.settled_of_empty (h : w.Sane f) (hkeys : w.cache.keys = {})
    (hs : w.cache.config.shareSlotKeys) (hnone : w.attachedKeys = []) : w.Settled f := by
  have hnames : ∀ n, n ∉ w.cache.keys.names := by
    rw [hkeys]
    exact fun _ => List.not_mem_nil
  constructor
  case toSane => exact h
  case shares => exact hs
  case table =>
    rw [hkeys]
    exact .empty _ _
  case live => exact fun n hn => absurd hn (hnames n)
  case filed =>
    rw [hnone]
    exact fun _ hk => absurd hk List.not_mem_nil
  case encloses =>
    exact ⟨fun n hn => absurd hn (hnames n), fun n hn => absurd hn (hnames n),
      fun _ _ _ ⟨n, hn, _⟩ => absurd hn (hnames n)⟩

/-- The key table is at rest after each operation. -/
theorem CarefulRun.settled (ho : host.Orderly) (hh : host.Discreet) (h₀ : w₀.Settled f₀)
    (hrun : CarefulRun host w₀ f₀ w f) : w.Settled f := by
  induction hrun with
  | start => exact h₀
  | step _ hd hspares ih => exact hd.settled ho hh ih hspares

/-- A discard, on request or by a lookup, leaves no dead entry in the key table. So if a caller who
drops his handles at once starts with an empty table, then after each operation it has as many
entries as there are different names of slots and init-args in attached structures, and all of them
are alive. -/
theorem redefinitions_leave_no_names (ho : host.Orderly) (hh : host.Discreet)
    (h₀ : w₀.Sane f₀) (hkeys : w₀.cache.keys = {}) (hs : w₀.cache.config.shareSlotKeys)
    (hnone : w₀.attachedKeys = []) :
    (∀ (w : World) (v : Value), (w.invalidate v).1 →
      (w.invalidate v).2.cache.keys.tracked = (w.invalidate v).2.liveNames) ∧
    (∀ (host' : Host) (wanted : Wanted) (w w₁ : World) (c : CellId),
      (w.store.extension? c).isSome → w.cached? host' wanted c = (none, w₁) →
        w₁.cache.keys.tracked = w₁.liveNames) ∧
    ∀ w f, CarefulRun host w₀ f₀ w f →
      w.cache.keys.tracked = w.liveNames ∧ w.liveNames = w.attachedNames.card :=
  ⟨fun _ _ => World.swept_invalidate, fun _ _ _ _ _ => World.swept_cached?,
    fun _ _ hrun => (hrun.settled ho hh (World.settled_of_empty h₀ hkeys hs hnone)).counts⟩

/-! ## A class whose attribute is replaced -/

/-- Metaobjects that answer without code have no side effects. -/
theorem discreet_plainHost : plainHost.Discreet where
  toOnlyReplies := onlyReplies_plainHost
  toSideEffectFree := sideEffectFree_plainHost
  minds := minds_plainHost
  ages hq := by
    rw [(answers_plain hq).2]
    exact Store.ages_retain _ _
  roots hq := by
    rw [(answers_plain hq).2]
    rfl

/-- To see that cells are spared it is enough to look at the cells that there are. -/
theorem World.spares_of_entries
    (h : ∀ e ∈ w.store.cells.entries, (w.store.extension? e.1).isSome → w'.store.alive e.1) :
    w.Spares w' := by
  intro c hx
  obtain ⟨r, hr⟩ := Option.isSome_iff_exists.1 hx
  obtain ⟨e, he⟩ := Option.isSome_iff_exists.1 (Store.alive_of_extension? hr)
  exact h (c, e) (Table.find?_eq_some_iff.1 he) hx

/-- An object without references is made in between. -/
theorem CarefulRun.newObject {o : Object} (ho : host.Orderly) (hh : host.Discreet)
    (h₀ : w₀.Settled f₀) (hrun : CarefulRun host w₀ f₀ w f) (hown : o.owned = []) :
    CarefulRun host w₀ f₀ (w.onStore fun s => (s.newCell (.object o)).2)
      (holding [.cell w.store.cells.next] + f) := by
  have hsane : w.Sane (holding o.owned + f) := by
    rw [hown, holding_nil, zero_add]
    exact (hrun.settled ho hh h₀).toSane
  have hb := World.bypasses_newObject hsane
  rw [hown, holding_nil, zero_add] at hb
  refine hrun.step (.other hb) fun c hx => ?_
  obtain ⟨r, hr⟩ := Option.isSome_iff_exists.1 hx
  have halive := Store.alive_of_extension? hr
  exact (w.store.alive_newCell_of_ne _ (Nat.ne_of_lt (Store.lt_next_of_alive halive))).trans halive

/-- An attribute that is given by an init-arg. -/
def givenAttribute (slot initArg : String) : Object :=
  .attributeMeta ((AttributeQuery.initArg.method, .reply [.str initArg]) ::
    (AttributeQuery.hasInitArg.method, .reply [.int 1]) :: Script.bareAttribute slot)

/-- The shadow of an instance metaobject is looked up, and its handle is dropped. -/
def World.shadowed (c : CellId) (p : PayloadId) (w : World) : World :=
  (((Lookup.shadow (.ref c)).run plainHost).leaves w).onStore (·.release [.payload p])

/-- The shadow of a class was looked up, and another attribute was made. -/
def preparedWorld : World :=
  (pointWorld.shadowed 2 0).onStore fun s => (s.newCell (.object (givenAttribute "y" "z"))).2

/-- Then the class gets this attribute instead of its own, and its shadow is looked up again. -/
def replacedWorld : World := (preparedWorld.defineClass "Point" [.ref 3]).2.shadowed 2 1

theorem sane_empty : World.Sane {} 0 := ⟨Store.Exact.empty, fun _ he => nomatch he⟩

theorem settled_empty : World.Settled {} 0 := World.settled_of_empty sane_empty rfl rfl rfl

theorem carefulRun_replacedWorld : CarefulRun plainHost {} 0 replacedWorld
    (holding (Lookup.shadow (.ref 2)).owned + (holding [.cell 1] + holding [.cell 1])) := by
  have ho : plainHost.Orderly := (registered_scriptedHost _ : plainHost.Registered).orderly
  have hh := discreet_plainHost
  have hattr := CarefulRun.newObject (o := .attributeMeta (Script.bareAttribute "x")) ho hh
    settled_empty .start rfl
  have hclass := hattr.step (.define "Point" [.ref 0] _ 0)
    (World.spares_of_entries (by decide +kernel))
  have hinst := hclass.newObject (o := .instanceMeta "Point" []) ho hh settled_empty rfl
  have hfirst : CarefulRun plainHost {} 0 (pointWorld.shadowed 2 0) _ :=
    hinst.step (.lookup (l := .shadow (.ref 2)) (holding [.cell 1])
      (Build.eq_of_answer? (by decide +kernel))) (World.spares_of_entries (by decide +kernel))
  have hother := hfirst.newObject (o := givenAttribute "y" "z") ho hh settled_empty rfl
  have hnext : (pointWorld.shadowed 2 0).store.cells.next = 3 := by decide +kernel
  rw [hnext] at hother
  have hagain := hother.step (.define "Point" [.ref 3] preparedWorld _)
    (World.spares_of_entries (by decide +kernel))
  have hcls : (preparedWorld.defineClass "Point" [.ref 3]).1 = 1 := by decide +kernel
  rw [hcls, add_left_comm] at hagain
  exact hagain.step (.lookup (l := .shadow (.ref 2)) _ (Build.eq_of_answer? (by decide +kernel)))
    (World.spares_of_entries (by decide +kernel))

/-- In the end the table has the slot and the init-arg of the new attribute, and no more; a discard
empties it. -/
theorem redefinitions_leave_no_names_replacedWorld :
    replacedWorld.attachedNames = {"y", "z"} ∧ replacedWorld.cache.keys.tracked = 2 ∧
      (replacedWorld.invalidate (.ref 2)).1 ∧
        (replacedWorld.invalidate (.ref 2)).2.cache.keys.tracked = 0 := by
  have hnames : replacedWorld.attachedNames = {"y", "z"} := by decide +kernel
  have hdiscard : (replacedWorld.invalidate (.ref 2)).1 := by decide +kernel
  obtain ⟨hswept, -, hcounts⟩ := redefinitions_leave_no_names
    (registered_scriptedHost _ : plainHost.Registered).orderly discreet_plainHost sane_empty rfl rfl
    rfl
  obtain ⟨htracked, hlive⟩ := hcounts _ _ carefulRun_replacedWorld
  refine ⟨hnames, ?_, hdiscard, ?_⟩
  · rw [htracked, hlive, hnames]
    rfl
  · rw [hswept _ _ hdiscard]
    decide +kernel

end MetaCache
