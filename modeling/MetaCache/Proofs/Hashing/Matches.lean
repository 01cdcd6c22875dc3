import MetaCache.Proofs.Custody.Table
import MetaCache.Proofs.Hashing.Unhashed
import MetaCache.Proofs.Storage.Refinement
/-!
# Worlds that match

Two runs that differ in the hashes of names give out the same identities of names, and all that
there is in them is the same, hashes aside. Each run files the names in its own way, but the same
names are alive in both key tables.

* `Hashings`: the two ways to hash, and what identities of names stand for in both runs.
* `Matches`: structures that are the same without hashes, whose keys are in order in each run;
  `Key.Matches`, `Payload.Matches`, … are cases of it.
* `Store.Matches`, `World.Matches`: stores with their key tables, and worlds.
* `Store.Matches.retain`, `Store.Matches.release`, …: what is done to both stores leaves a match.
* `Store.Matches.read`: what does not depend on hashes reads the same in both.
-/

namespace MetaCache

open Script (Binding Session)

/-- How each of two runs hashes, and what the identities of names that were given out stand for. -/
structure Hashings where
  left : String → UInt32
  right : String → UInt32
  naming : Naming

/-- Further names may be given out. -/
instance : Preorder Hashings where
  le g g' := g.left = g'.left ∧ g.right = g'.right ∧ g.naming ≤ g'.naming
  le_refl _ := ⟨rfl, rfl, le_rfl⟩
  le_trans _ _ _ h h' := ⟨h.1.trans h'.1, h.2.1.trans h'.2.1, h.2.2.trans h'.2.2⟩

/-- The key has a name of the naming, and the hash of its text. -/
def Naming.Fits (n : Naming) (hash : String → UInt32) (k : Key) : Prop :=
  k.Proper hash n.label n.bound

/-- Structures that are the same without hashes. The keys in them fit in each run. -/
structure Matches {α : Type} (keys : α → List Key) (unhashed : α → α) (g : Hashings) (a b : α) :
    Prop where
  unhashed : unhashed a = unhashed b
  left : ∀ k ∈ keys a, g.naming.Fits g.left k
  right : ∀ k ∈ keys b, g.naming.Fits g.right k

/-! ## Keys that occur -/

def Descriptor.keys (d : Descriptor) : List Key := d.slot :: d.initArg.toList

def Shadow.keys (s : Shadow) : List Key := s.descriptors.flatMap Descriptor.keys

def Payload.keys : Payload → List Key
  | .tag _ => []
  | .descriptor d => d.keys
  | .shadow s => s.keys

def Entries.keys (es : List (Key × Value)) : List Key := es.map Prod.fst

def Referent.keys : Referent → List Key
  | .hash es => Entries.keys es
  | _ => []

def Script.Binding.keys : Binding → List Key
  | .key k => [k]
  | _ => []

def Script.Session.keys (s : Session) : List Key := s.vars.flatMap fun v => v.2.keys

/-- The key occurs in a cell or in a payload. -/
def Store.Mentions (s : Store) (k : Key) : Prop :=
  (∃ c r, s.referent? c = some r ∧ k ∈ r.keys) ∨ ∃ p x, s.payload? p = some x ∧ k ∈ x.keys

abbrev Key.Matches : Hashings → Key → Key → Prop :=
  MetaCache.Matches (fun k => [k]) Key.unhashed

abbrev Key.Matches? : Hashings → Option Key → Option Key → Prop :=
  MetaCache.Matches Option.toList (Option.map Key.unhashed)

abbrev Entries.Matches : Hashings → List (Key × Value) → List (Key × Value) → Prop :=
  MetaCache.Matches Entries.keys Entries.unhashed

abbrev Descriptor.Matches : Hashings → Descriptor → Descriptor → Prop :=
  MetaCache.Matches Descriptor.keys Descriptor.unhashed

abbrev Shadow.Matches : Hashings → Shadow → Shadow → Prop :=
  MetaCache.Matches Shadow.keys Shadow.unhashed

abbrev Payload.Matches : Hashings → Payload → Payload → Prop :=
  MetaCache.Matches Payload.keys Payload.unhashed

abbrev Script.Binding.Matches : Hashings → Binding → Binding → Prop :=
  MetaCache.Matches Binding.keys Binding.unhashed

abbrev Script.Session.Matches : Hashings → Session → Session → Prop :=
  MetaCache.Matches Session.keys Session.unhashed

abbrev Referent.Matches : Hashings → Referent → Referent → Prop :=
  MetaCache.Matches Referent.keys Referent.unhashed

/-- One run's store and key table: names have been given out up to the bound of the naming, the keys
that occur fit, and the table is in order. -/
structure Store.Keyed (hash : String → UInt32) (n : Naming) (a : KeyTable) (s : Store) : Prop where
  bound : n.bound = s.names.next
  keys : ∀ k, s.Mentions k → n.Fits hash k
  table : ∀ m ∈ a.names, n.Knows m
  tidy : a.Tidy hash s

/-- Stores of two runs, with the key table of each. -/
structure Store.Matches (g : Hashings) (a b : KeyTable) (s t : Store) : Prop where
  unhashed : s.unhashed = t.unhashed
  left : s.Keyed g.left g.naming a
  right : t.Keyed g.right g.naming b
  live : ∀ m, m ∈ a.live s ↔ m ∈ b.live t

/-- Worlds of two runs. -/
structure World.Matches (g : Hashings) (w v : World) : Prop where
  store : w.store.Matches g w.cache.keys v.cache.keys v.store
  cache : w.cache.unhashed = v.cache.unhashed
  left : w.cache.nameHash = g.left
  right : v.cache.nameHash = g.right
  registry : w.registry = v.registry
  session : w.session.Matches g v.session

variable {g g' : Hashings} {a b : KeyTable}

theorem Matches.mono {α : Type} {keys : α → List Key} {unhashed : α → α} {x y : α}
    (h : Matches keys unhashed g x y) (hg : g ≤ g') : Matches keys unhashed g' x y where
  unhashed := h.unhashed
  left k hk := hg.1 ▸ (h.left k hk).mono hg.2.2.1 hg.2.2.2
  right k hk := hg.2.1 ▸ (h.right k hk).mono hg.2.2.1 hg.2.2.2

/-- Where there are no keys, there is nothing in which two runs may differ. -/
theorem Matches.of_keys_eq_nil {α : Type} {keys : α → List Key} {unhashed : α → α} {x : α}
    (h : keys x = []) : Matches keys unhashed g x x where
  unhashed := rfl
  left _ hk := (List.not_mem_nil (h ▸ hk)).elim
  right _ hk := (List.not_mem_nil (h ▸ hk)).elim

/-- What is the same without hashes is found in both runs or in none of them. -/
theorem cases_of_map_eq {α β : Type} {f : α → β} {x y : Option α} (h : x.map f = y.map f) :
    (x = none ∧ y = none) ∨ ∃ a b, x = some a ∧ y = some b ∧ f a = f b := by
  cases x with
  | none => exact .inl ⟨rfl, Option.map_eq_none_iff.1 h.symm⟩
  | some a =>
    obtain ⟨b, hy, hab⟩ := Option.map_eq_some_iff.1 h.symm
    exact .inr ⟨a, b, rfl, hy, hab.symm⟩

/-! ## Keys -/

namespace Key.Matches

variable {k k' l l' : Key} (h : k.Matches g l)

include h

theorem name : k.name = l.name := by
  have hname : k.unhashed.name = l.unhashed.name := congrArg Key.name h.unhashed
  exact hname

theorem text : k.text = l.text := congrArg SharedName.text h.name

theorem owned : k.owned = l.owned := by
  rw [← k.owned_unhashed, h.unhashed, l.owned_unhashed]

/-- Keys denote the same slot by their names, whatever the hashes. -/
theorem sameSlot_eq (h' : k'.Matches g l') : k.sameSlot k' = l.sameSlot l' := by
  rw [Bool.eq_iff_iff, sameSlot_iff (h.left k (by simp)) (h'.left k' (by simp)),
    sameSlot_iff (h.right l (by simp)) (h'.right l' (by simp)), h.text, h'.text]

theorem sharesNameWith_eq (h' : k'.Matches g l') : k.sharesNameWith k' = l.sharesNameWith l' := by
  rw [Key.sharesNameWith, Key.sharesNameWith, h.name, h'.name]

end Key.Matches

/-! ## Stores -/

namespace Store

variable {s s' t t' : Store} {k : Key}

theorem names_of_unhashed_eq (h : s.unhashed = t.unhashed) : s.names = t.names := by
  have hnames : s.unhashed.names = t.unhashed.names := congrArg Store.names h
  exact hnames

theorem has_of_has_releaseOne {o : Owned} {x : Share} (h : (s.releaseOne o).2.has x) :
    s.has x := by
  cases ho : o.plain? with
  | none =>
    obtain ⟨p, rfl⟩ := Owned.exists_of_plain?_eq_none ho
    exact h
  | some y =>
    rw [releaseOne_eq s ho] at h
    split at h
    · rename_i hlast
      exact (has_of_has_remove hlast.1 h).1
    · exact (s.has_adjust _ y x).symm.trans h

/-- What is there after a release was there before. -/
theorem has_of_has_release {os : List Owned} {x : Share} (h : (s.release os).has x) : s.has x := by
  induction s, os using Store.release.induct with
  | case1 s => rwa [release_nil] at h
  | case2 s o rest _ ih =>
    rw [release_cons] at h
    exact has_of_has_releaseOne (ih h)

theorem Sheds.mentions (h : s.Sheds s') (hk : s'.Mentions k) : s.Mentions k := by
  rcases hk with ⟨c, r, hr, hk⟩ | ⟨p, x, hx, hk⟩
  · exact .inl ⟨c, r, h.keeps.referent? c r hr, hk⟩
  · exact .inr ⟨p, x, h.payload? p x hx, hk⟩

theorem mentions_setReferent {c : CellId} {r : Referent} (hk : (s.setReferent c r).Mentions k) :
    s.Mentions k ∨ k ∈ r.keys := by
  rcases hk with ⟨d, x, hx, hk⟩ | hk
  · rw [referent?_setReferent] at hx
    split at hx
    · obtain ⟨_, -, rfl⟩ := Option.map_eq_some_iff.1 hx
      exact .inr hk
    · exact .inl (.inl ⟨d, x, hx, hk⟩)
  · exact .inl (.inr hk)

theorem mentions_setExtension {c : CellId} {r : Option Record}
    (hk : (s.setExtension c r).Mentions k) : s.Mentions k := by
  rcases hk with ⟨d, x, hx, hk⟩ | hk
  · rw [referent?_setExtension] at hx
    exact .inl ⟨d, x, hx, hk⟩
  · exact .inr hk

theorem mentions_newCell {r : Referent} (hk : (s.newCell r).2.Mentions k) :
    s.Mentions k ∨ k ∈ r.keys := by
  rcases hk with ⟨d, x, hx, hk⟩ | hk
  · rw [referent?_newCell] at hx
    split at hx
    · cases hx
      exact .inr hk
    · exact .inl (.inl ⟨d, x, hx, hk⟩)
  · exact .inl (.inr hk)

theorem mentions_newPayload {p : Payload} (hk : (s.newPayload p).2.Mentions k) :
    s.Mentions k ∨ k ∈ p.keys := by
  rcases hk with hk | ⟨q, x, hx, hk⟩
  · exact .inl (.inl hk)
  · by_cases hq : q = s.payloads.next
    · rw [hq, payload?_newPayload_self] at hx
      cases hx
      exact .inr hk
    · rw [payload?, newPayload, Table.find?_insert_of_ne _ _ hq] at hx
      exact .inl (.inr ⟨q, x, hx, hk⟩)

/-- Nothing has come to life, and the keys that are new fit. -/
theorem Keyed.step {hash : String → UInt32} {n : Naming} (h : s.Keyed hash n a)
    (hnext : s'.names.next = s.names.next)
    (hkeys : ∀ k, s'.Mentions k → s.Mentions k ∨ n.Fits hash k)
    (halive : ∀ m, s'.nameAlive m → s.nameAlive m) : s'.Keyed hash n a where
  bound := h.bound.trans hnext.symm
  keys k hk := (hkeys k hk).elim (h.keys k) id
  table := h.table
  tidy := h.tidy.of_alive fun m _ => halive m

namespace Matches

variable (h : s.Matches g a b t)

include h

theorem names : s.names = t.names := names_of_unhashed_eq h.unhashed

theorem nameAlive_eq : s.nameAlive = t.nameAlive := by
  funext m
  rw [nameAlive, nameAlive, h.names]

/-- What does not depend on hashes is read the same. -/
theorem read {α : Type} {r : Store → α} (hr : ∀ s, r s.unhashed = r s) : r s = r t := by
  rw [← hr s, h.unhashed, hr t]

theorem alive_eq : s.alive = t.alive := h.read alive_unhashed

theorem extension?_eq (c : CellId) : s.extension? c = t.extension? c := by
  rw [← s.extension?_unhashed, h.unhashed, t.extension?_unhashed]

/-- The same was done to both stores, hashes aside, and nothing has come to life. -/
theorem step (hu : s'.unhashed = t'.unhashed) (hnext : s'.names.next = s.names.next)
    (hleft : ∀ k, s'.Mentions k → s.Mentions k ∨ g.naming.Fits g.left k)
    (hright : ∀ k, t'.Mentions k → t.Mentions k ∨ g.naming.Fits g.right k)
    (halive : ∀ m, s'.nameAlive m → s.nameAlive m) : s'.Matches g a b t' := by
  have hnames : s'.names = t'.names := names_of_unhashed_eq hu
  have halive_eq : s'.nameAlive = t'.nameAlive := by
    funext m
    rw [nameAlive, nameAlive, hnames]
  have hnext' : t'.names.next = t.names.next := by
    rw [← hnames, hnext, h.names]
  refine ⟨hu, h.left.step hnext hleft halive, h.right.step hnext' hright fun m hm => ?_,
    fun m => ?_⟩
  · rw [← halive_eq] at hm
    exact h.nameAlive_eq ▸ halive m hm
  · have hlive := h.live m
    rw [KeyTable.mem_live, KeyTable.mem_live] at hlive ⊢
    rw [← halive_eq]
    rw [← h.nameAlive_eq] at hlive
    constructor
    · exact fun hm => ⟨(hlive.1 ⟨hm.1, halive m hm.2⟩).1, hm.2⟩
    · exact fun hm => ⟨(hlive.2 ⟨hm.1, halive m hm.2⟩).1, hm.2⟩

theorem retain (os : List Owned) : (s.retain os).Matches g a b (t.retain os) :=
  h.step (by rw [unhashed_retain, unhashed_retain, h.unhashed]) (s.names_next_retain os)
    (fun _ hk => .inl ((s.sheds_retain os).mentions hk))
    (fun _ hk => .inl ((t.sheds_retain os).mentions hk))
    fun m hm => (s.has_retain os (.name m.id)).symm.trans hm

theorem release {os os' : List Owned} (ho : os.map Owned.unhashed = os'.map Owned.unhashed) :
    (s.release os).Matches g a b (t.release os') :=
  h.step (release_of_unhashed_eq h.unhashed ho) (s.names_next_release os)
    (fun _ hk => .inl ((s.sheds_release os).mentions hk))
    (fun _ hk => .inl ((t.sheds_release os').mentions hk))
    fun m hm => has_of_has_release (x := .name m.id) hm

theorem upgrade (v : Value) :
    (s.upgrade v).1 = (t.upgrade v).1 ∧ (s.upgrade v).2.Matches g a b (t.upgrade v).2 := by
  cases v with
  | weak c =>
    simp only [Store.upgrade, h.alive_eq]
    split
    · exact ⟨rfl, (h.retain [.cell c]).release rfl⟩
    · exact ⟨rfl, h⟩
  | _ => exact ⟨rfl, h⟩

/-- Notes make no difference, whatever they say. -/
theorem note (n m : Note) : (s.note n).Matches g a b (t.note m) :=
  h.step h.unhashed rfl (fun _ => .inl) (fun _ => .inl) fun _ => id

theorem newCell {r q : Referent} (hrq : r.Matches g q) :
    (s.newCell r).1 = (t.newCell q).1 ∧ (s.newCell r).2.Matches g a b (t.newCell q).2 := by
  have hnext : s.cells.next = t.cells.next := congrArg (fun s => s.cells.next) h.unhashed
  refine ⟨hnext, h.step ?_ rfl (fun k hk => (mentions_newCell hk).imp id (hrq.left k))
    (fun k hk => (mentions_newCell hk).imp id (hrq.right k)) fun _ => id⟩
  rw [unhashed_newCell, unhashed_newCell, h.unhashed, hrq.unhashed]

theorem newPayload {p q : Payload} (hpq : p.Matches g q) :
    (s.newPayload p).1 = (t.newPayload q).1 ∧
      (s.newPayload p).2.Matches g a b (t.newPayload q).2 := by
  have hnext : s.payloads.next = t.payloads.next := congrArg (fun s => s.payloads.next) h.unhashed
  refine ⟨hnext, h.step ?_ rfl (fun k hk => (mentions_newPayload hk).imp id (hpq.left k))
    (fun k hk => (mentions_newPayload hk).imp id (hpq.right k)) fun _ => id⟩
  rw [unhashed_newPayload, unhashed_newPayload, h.unhashed, hpq.unhashed]

theorem setReferent (c : CellId) {r q : Referent} (hrq : r.Matches g q) :
    (s.setReferent c r).Matches g a b (t.setReferent c q) := by
  refine h.step ?_ rfl (fun k hk => (mentions_setReferent hk).imp id (hrq.left k))
    (fun k hk => (mentions_setReferent hk).imp id (hrq.right k)) fun _ => id
  rw [unhashed_setReferent, unhashed_setReferent, h.unhashed, hrq.unhashed]

theorem setExtension (c : CellId) (r : Option Record) :
    (s.setExtension c r).Matches g a b (t.setExtension c r) := by
  refine h.step ?_ rfl (fun _ hk => .inl (mentions_setExtension hk))
    (fun _ hk => .inl (mentions_setExtension hk)) fun _ => id
  rw [unhashed_setExtension, unhashed_setExtension, h.unhashed]

end Matches

end Store

end MetaCache
