import MetaCache.Proofs.History.Later
import MetaCache.Proofs.Ownership.Counts
import MetaCache.Proofs.Storage.Map
/-!
# What an operation writes

An operation on a slot looks at the instance, at one entry of its hash and at which cells live. It
writes that entry, and otherwise takes shares and gives them back, by which entries of the store may
go but none is changed.

* `Storage.run_of_early`, `Storage.run_of_stranger`: operations that do not come to the instance.
* `Storage.Performs`, `Storage.performs`: what an operation does to an instance.
-/

namespace MetaCache

namespace Store

variable {s s' : Store}

/-! ## Names that were given -/

theorem names_next_releaseOne (s : Store) (o : Owned) :
    (s.releaseOne o).2.names.next = s.names.next := by
  cases ho : o.plain? with
  | none =>
    obtain ⟨p, rfl⟩ := Owned.exists_of_plain?_eq_none ho
    rfl
  | some x =>
    rcases releaseOne_cases ho s with ⟨hr, -⟩ | ⟨hr, -⟩ | ⟨hr, -⟩
    · rw [hr]
    · rw [hr]
      exact s.names_next_adjust (· - 1) x
    · rw [hr]
      cases x <;> rfl

theorem names_next_release (s : Store) (os : List Owned) :
    (s.release os).names.next = s.names.next := by
  induction s, os using Store.release.induct with
  | case1 s => rw [release_nil]
  | case2 s o rest _ ih => rw [release_cons]; exact ih.trans (s.names_next_releaseOne o)

theorem names_next_upgrade (s : Store) (v : Value) :
    (s.upgrade v).2.names.next = s.names.next := by
  unfold Store.upgrade
  split
  · split
    · exact (names_next_release _ _).trans (names_next_retain _ _)
    · rfl
  · rfl

/-! ## Reading -/

/-- A value taken over is the value as it is read. -/
theorem upgrade_fst (s : Store) (v : Value) : (s.upgrade v).1 = v.seen s.alive := by
  cases v with
  | weak c =>
    rw [Store.upgrade, Value.seen]
    split <;> rfl
  | _ => rfl

theorem alive_retain (s : Store) (os : List Owned) : (s.retain os).alive = s.alive :=
  funext fun c => s.has_retain os (.cell c)

theorem alive_release_name (s : Store) (n : NameId) :
    (s.release [.name n]).alive = s.alive := by
  rw [release_cons]
  simp only [Store.releaseOne]
  split
  · rw [List.append_nil, release_nil]
  · split
    · rw [List.append_nil, release_nil]
      rfl
    · rw [List.append_nil, release_nil]
      rfl

/-- What sheds entries before a cell is written sheds them after it, too. -/
theorem Sheds.setReferent (h : s.Sheds s') (c : CellId) (r : Referent) :
    (s.setReferent c r).Sheds (s'.setReferent c r) where
  cells_next := h.cells_next
  payloads_next := h.payloads_next
  cell? d x hx := by
    rw [Store.setReferent, cell?_writeCell] at hx ⊢
    split at hx
    · obtain ⟨y, hy, rfl⟩ := Option.map_eq_some_iff.1 hx
      rw [if_pos ‹_›, h.cell? d y hy, Option.map_some]
    · rw [if_neg ‹_›]
      exact h.cell? d x hx
  payload? := h.payload?

/-- A cell that keeps its referent is not changed by being written. -/
theorem setReferent_self {c : CellId} {r : Referent} (h : s.referent? c = some r) (d : CellId) :
    (s.setReferent c r).cell? d = s.cell? d := by
  rw [Store.setReferent, cell?_writeCell]
  split
  · rename_i hd
    obtain ⟨x, hx, rfl⟩ := Option.map_eq_some_iff.1 h
    rw [hd, hx, Option.map_some]
  · rfl

theorem hash?_eq_some {v : Value} {c : CellId} {es : List (Key × Value)}
    (h : s.hash? v = some (c, es)) : v = .ref c ∧ s.referent? c = some (.hash es) := by
  cases v with
  | ref d =>
    simp only [Store.hash?, Value.strong?, Option.bind_eq_bind, Option.bind_some] at h
    obtain ⟨r, hr, hm⟩ := Option.bind_eq_some_iff.1 h
    split at hm
    · cases hm
      exact ⟨rfl, hr⟩
    · cases hm
  | _ => cases h

end Store

/-! ## The operations -/

namespace Storage

variable {s : Store} {inst : Value} {slot : Key}

/-- An operation that does not look at the instance changes nothing. -/
theorem run_of_early (inst : Value) (s : Store) {op : Operation} {a : Except Error Answer}
    (h : op.early? slot.text = some a) : op.run inst slot s = (a, s) ∧ op.given = [] := by
  unfold Operation.early? at h
  split at h
  · cases h
    exact ⟨rfl, rfl⟩
  · cases h
    exact ⟨rfl, rfl⟩
  · cases h

/-- Of an instance that is no hash nothing is read or written. -/
theorem run_of_stranger {op : Operation} (he : op.early? slot.text = none)
    (h : s.hash? inst = none) :
    op.run inst slot s = (.error (notHash s inst), s.release op.given) := by
  have hnil : s.release [] = s := Store.release_nil s
  cases op with
  | has => simp only [Operation.run, Storage.has, h, Operation.given, hnil]; rfl
  | get => simp only [Operation.run, Storage.get, h, Operation.given, hnil]; rfl
  | set v => simp only [Operation.run, Storage.set, h, Operation.given]; rfl
  | delete => simp only [Operation.run, Storage.delete, h, Operation.given, hnil]; rfl
  | weaken policy =>
    cases policy with
    | weaken => simp only [Operation.run, Storage.weaken, h, Operation.given, hnil]; rfl
    | ignore | reject => cases he

/-- The operation `op` on a slot of the hash in `c`, whose entries are `es`, answers and leaves what
the second argument tells. -/
structure Performs (hash : String → UInt32) (label : NameId → String) (s : Store) (c : CellId)
    (es : List (Key × Value)) (slot : Key) (op : Operation)
    (done : Except Error Answer × Store) (es' : List (Key × Value)) : Prop where
  answer : done.1 = (op.act s.scene slot.text (Entries.slots es slot.text)).1
  proper : Entries.Proper hash label s.names.next es'
  slots : Entries.slots es' = (Entries.slots es).assign slot.text
    (op.act s.scene slot.text (Entries.slots es slot.text)).2
  sheds : (s.setReferent c (.hash es')).Sheds done.2
  names : done.2.names.next = s.names.next
  attended : s.Attended → done.2.Attended
  failed : ∀ e, done.1 = .error e → done.2 = s ∧ op.given = []

variable {hash : String → UInt32} {label : NameId → String} {c : CellId}
  {es : List (Key × Value)} (hslot : slot.Proper hash label s.names.next)
  (hes : Entries.Proper hash label s.names.next es) (hc : s.referent? c = some (.hash es))

omit hash label slot es in
theorem hash?_of_referent? {es : List (Key × Value)} (hc : s.referent? c = some (.hash es)) :
    s.hash? (.ref c) = some (c, es) := by
  simp only [Store.hash?, Value.strong?, Option.bind_eq_bind, Option.bind_some, hc]

section

include hc

/-- Where nothing is written, entries of the store may still go. -/
theorem sheds_unwritten {s' : Store} (h : s.Sheds s') :
    (s.setReferent c (.hash es)).Sheds s' := by
  have hs : (s.setReferent c (.hash es)).Sheds s :=
    .of_eq rfl rfl (fun d => (Store.setReferent_self hc d).symm) fun _ => rfl
  exact hs.trans h

include hes

/-- An operation that leaves the entries as they are. -/
theorem Performs.unwritten {op : Operation} {done : Except Error Answer × Store}
    (ha : done.1 = (op.act s.scene slot.text (Entries.slots es slot.text)).1)
    (hv : (op.act s.scene slot.text (Entries.slots es slot.text)).2 = Entries.slots es slot.text)
    (hs : s.Sheds done.2) (hn : done.2.names.next = s.names.next)
    (hat : s.Attended → done.2.Attended)
    (hf : ∀ e, done.1 = .error e → done.2 = s ∧ op.given = []) :
    Performs hash label s c es slot op done es where
  answer := ha
  proper := hes
  slots := by rw [hv, Slots.assign_self]
  sheds := sheds_unwritten hc hs
  names := hn
  attended := hat
  failed := hf

end

include hslot hes hc

theorem performs_has :
    Performs hash label s c es slot .has (Operation.run .has (.ref c) slot s) es := by
  have hrun : Operation.run .has (.ref c) slot s =
      (.ok (.flag (Entries.lookup? es slot).isSome), s) := by
    simp only [Operation.run, Storage.has, hash?_of_referent? hc]
    rfl
  rw [hrun, Entries.isSome_lookup? hslot hes]
  exact .unwritten hes hc rfl rfl (.refl s) rfl id fun e h => by cases h

theorem performs_get :
    Performs hash label s c es slot .get (Operation.run .get (.ref c) slot s) es := by
  have hget := Entries.get?_eq hslot hes
  cases hv : Entries.slots es slot.text with
  | none =>
    have hrun : Operation.run .get (.ref c) slot s = (.ok (.found none), s) := by
      simp only [Operation.run, Storage.get, hash?_of_referent? hc, hget, hv]
      rfl
    rw [hrun]
    refine .unwritten hes hc ?_ rfl (.refl s) rfl id fun e h => by cases h
    rw [hv]
    rfl
  | some v =>
    have hrun : Operation.run .get (.ref c) slot s =
        (.ok (.found (some (v.seen s.alive))), ((s.retain v.owned).upgrade v).2) := by
      simp only [Operation.run, Storage.get, hash?_of_referent? hc, hget, hv, Store.upgrade_fst,
        Store.alive_retain]
      rfl
    rw [hrun]
    refine .unwritten hes hc ?_ rfl ((s.sheds_retain _).trans (Store.sheds_upgrade _ v)) ?_
      (fun h => (h.retain _).upgrade v) fun e h => by cases h
    · rw [hv]
      rfl
    · exact (Store.names_next_upgrade _ v).trans (s.names_next_retain _)

/-- What is stored is the value as it is read. -/
theorem performs_set (v : Value) : ∃ es', Performs hash label s c es slot (.set v)
    (Operation.run (.set v) (.ref c) slot s) es' := by
  have hget := Entries.get?_eq hslot hes
  have hput := Entries.slots_put hslot hes (v.seen s.alive)
  -- the store in which the entry is written
  have hs : s.Sheds ((s.upgrade v).2.retain (v.seen s.alive).owned) :=
    (s.sheds_upgrade v).trans (Store.sheds_retain _ _)
  have hn : ((s.upgrade v).2.retain (v.seen s.alive).owned).names.next = s.names.next :=
    (Store.names_next_retain _ _).trans (s.names_next_upgrade v)
  have hat : s.Attended → ((s.upgrade v).2.retain (v.seen s.alive).owned).Attended :=
    fun h => (h.upgrade v).retain _
  refine ⟨Entries.put slot (v.seen s.alive) es, ?_⟩
  cases hprev : Entries.slots es slot.text with
  | none =>
    have hrun : Operation.run (.set v) (.ref c) slot s = (.ok (.stored (v.seen s.alive)),
        (((s.upgrade v).2.retain (v.seen s.alive).owned).retain slot.owned).setReferent c
          (.hash (Entries.put slot (v.seen s.alive) es))) := by
      simp only [Operation.run, Storage.set, hash?_of_referent? hc, hget, hprev, Store.upgrade_fst]
      rfl
    rw [hrun]
    exact ⟨rfl, hes.put hslot _, hput, (hs.trans (Store.sheds_retain _ _)).setReferent _ _,
      (Store.names_next_retain _ _).trans hn, fun h => ((hat h).retain _).writeCell _ _,
      fun e h => by cases h⟩
  | some previous =>
    have hrun : Operation.run (.set v) (.ref c) slot s = (.ok (.stored (v.seen s.alive)),
        (((s.upgrade v).2.retain (v.seen s.alive).owned).setReferent c
          (.hash (Entries.put slot (v.seen s.alive) es))).release previous.owned) := by
      simp only [Operation.run, Storage.set, hash?_of_referent? hc, hget, hprev, Store.upgrade_fst]
      rfl
    rw [hrun]
    exact ⟨rfl, hes.put hslot _, hput, (hs.setReferent _ _).trans (Store.sheds_release _ _),
      (Store.names_next_release _ _).trans hn, fun h => ((hat h).writeCell _ _).release _,
      fun e h => by cases h⟩

theorem performs_delete : ∃ es', Performs hash label s c es slot .delete
    (Operation.run .delete (.ref c) slot s) es' := by
  have hwritten (r : Referent) : (s.setReferent c r).alive = s.alive :=
    funext fun d => s.alive_writeCell c d _
  have hlook := Entries.lookup?_eq hslot hes
  have hslots : Entries.slots es slot.text = (Entries.lookup? es slot).map Prod.snd := by
    rw [hlook]
    rfl
  cases hv : Entries.lookup? es slot with
  | none =>
    have hrun : Operation.run .delete (.ref c) slot s = (.ok (.found none), s) := by
      simp only [Operation.run, Storage.delete, hash?_of_referent? hc, hv]
      rfl
    rw [hv] at hslots
    rw [hrun]
    refine ⟨es, .unwritten hes hc ?_ ?_ (.refl s) rfl id fun e h => by cases h⟩
    · rw [hslots]
      rfl
    · exact hslots.symm
  | some entry =>
    obtain ⟨key, v⟩ := entry
    rw [hv] at hslots
    have hrun : Operation.run .delete (.ref c) slot s = (.ok (.found (some (v.seen s.alive))),
        (((s.setReferent c (.hash (Entries.remove slot es))).release key.owned).upgrade v).2) := by
      simp only [Operation.run, Storage.delete, hash?_of_referent? hc, hv, Store.upgrade_fst,
        Key.owned, Store.alive_release_name, hwritten]
      rfl
    rw [hrun]
    refine ⟨Entries.remove slot es, ?_, hes.remove, Entries.slots_remove hslot hes,
      (Store.sheds_release _ _).trans (Store.sheds_upgrade _ v), ?_,
      fun h => ((h.writeCell _ _).release _).upgrade v, fun e h => by cases h⟩
    · rw [hslots]
      rfl
    · exact (Store.names_next_upgrade _ v).trans (Store.names_next_release _ _)

theorem performs_weaken : ∃ es', Performs hash label s c es slot (.weaken .weaken)
    (Operation.run (.weaken .weaken) (.ref c) slot s) es' := by
  have hget := Entries.get?_eq hslot hes
  -- slots that hold no strong reference
  have hrest : ∀ v?, Entries.slots es slot.text = v? → (∀ target, v? ≠ some (.ref target)) →
      Operation.run (.weaken .weaken) (.ref c) slot s =
        ((Operation.weakened s.scene slot.text v?).1, s) ∧
      (Operation.weakened s.scene slot.text v?).2 = v? := by
    intro v? hv hne
    simp only [Operation.run, Storage.weaken, hash?_of_referent? hc, hget, hv]
    cases v? with
    | none => exact ⟨rfl, rfl⟩
    | some v =>
      cases v with
      | ref target => exact absurd rfl (hne target)
      | _ => exact ⟨rfl, rfl⟩
  by_cases hv : ∃ target, Entries.slots es slot.text = some (.ref target)
  · obtain ⟨target, hv⟩ := hv
    have hrun : Operation.run (.weaken .weaken) (.ref c) slot s = (.ok .nothing,
        ((s.retain [.weakCell target]).setReferent c
          (.hash (Entries.put slot (.weak target) es))).release [.cell target]) := by
      simp only [Operation.run, Storage.weaken, hash?_of_referent? hc, hget, hv]
      rfl
    rw [hrun]
    refine ⟨Entries.put slot (.weak target) es, ?_, hes.put hslot _, ?_,
      ((s.sheds_retain _).setReferent _ _).trans (Store.sheds_release _ _),
      (Store.names_next_release _ _).trans (s.names_next_retain _),
      fun h => ((h.retain _).writeCell _ _).release _, fun e h => by cases h⟩
    · rw [hv]
      rfl
    · rw [hv]
      exact Entries.slots_put hslot hes _
  · obtain ⟨hrun, hsame⟩ := hrest _ rfl fun target h => hv ⟨target, h⟩
    rw [hrun]
    exact ⟨es, .unwritten hes hc rfl hsame (.refl s) rfl id fun e h => ⟨rfl, rfl⟩⟩

/-- An operation that comes to an instance does to its hash what it does to the map. -/
theorem performs {op : Operation} (he : op.early? slot.text = none) :
    ∃ es', Performs hash label s c es slot op (op.run (.ref c) slot s) es' := by
  cases op with
  | has => exact ⟨es, performs_has hslot hes hc⟩
  | get => exact ⟨es, performs_get hslot hes hc⟩
  | set v => exact performs_set hslot hes hc v
  | delete => exact performs_delete hslot hes hc
  | weaken policy =>
    cases policy with
    | weaken => exact performs_weaken hslot hes hc
    | ignore | reject => cases he

end Storage

end MetaCache
