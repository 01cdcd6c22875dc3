import Mathlib.Data.Finset.Card
import MetaCache.Proofs.Custody.Payloads
import MetaCache.Proofs.Hashing.Matches
/-!
# Who holds a name

Names are held by keys: those of hashes, those of compiled structures, and those that somebody has
in hand. Where counts are exact, a name that only structures hold is there as long as one of them
is, and a structure that only extension slots hold is there as long as it is in one.

* `Payload.holding_name`: the shares of a name that a structure has are its keys of that name.
* `Store.held_name_pos`: who holds a name inside of the store.
* `World.attachment?`, `World.attachedKeys`: the structures in extension slots, and their keys.
* `World.Encloses`: names that structures in extension slots hold, and nobody else.
* `World.nameAlive_of_attached`, `World.Encloses.exists_attached`: the names of attached structures
  are there, and the other ones are not.
-/

namespace MetaCache

/-! ## The names of keys -/

theorem Key.holding_name (k : Key) (n : NameId) :
    holding k.owned (.name n) = if k.name.id = n then 1 else 0 := by
  rw [Key.owned, holding_plain rfl]
  simp only [Share.name.injEq, eq_comm]

theorem Descriptor.holding_name (d : Descriptor) (n : NameId) :
    holding d.owned (.name n) = d.keys.countP (·.name.id = n) := by
  have harg : holding (ownedByKey? d.initArg) (.name n) =
      d.initArg.toList.countP (·.name.id = n) := by
    cases d.initArg with
    | none => rfl
    | some k => simp only [ownedByKey?, Key.holding_name, Option.toList_some,
        List.countP_singleton, decide_eq_true_eq]
  have hdefault : holding d.default.owned (.name n) = 0 := by
    cases d.default with
    | value v => cases v <;> rfl
    | _ => rfl
  have hinit : holding (ownedByCell? d.initializer) (.name n) = 0 := by
    cases d.initializer <;> rfl
  have horigin : holding [.weakCell d.origin] (.name n) = 0 := rfl
  simp only [Descriptor.owned, holding_append, Pi.add_apply, Key.holding_name, harg, hdefault,
    hinit, horigin, keys, List.countP_cons, decide_eq_true_eq]
  omega

/-- The shares of a name that a structure has are its keys of that name. -/
theorem Payload.holding_name (x : Payload) (n : NameId) :
    holding x.owned (.name n) = x.keys.countP (·.name.id = n) := by
  cases x with
  | tag name => rfl
  | descriptor d => exact d.holding_name n
  | shadow s =>
    have hds (ds : List Descriptor) :
        holding (ds.map fun d => .held (.descriptor d)) (.name n) =
          (ds.flatMap Descriptor.keys).countP (·.name.id = n) := by
      induction ds with
      | nil => rfl
      | cons d rest ih =>
        rw [List.map_cons, holding_cons, Pi.add_apply, holding_held, Payload.owned,
          d.holding_name, ih, List.flatMap_cons, List.countP_append]
    have hcls : holding [.cell s.cls] (.name n) = 0 := rfl
    rw [Payload.owned, holding_cons, Pi.add_apply, hcls, zero_add]
    exact hds s.descriptors

theorem Payload.holding_name_pos {x : Payload} {n : NameId} :
    0 < holding x.owned (.name n) ↔ ∃ k ∈ x.keys, k.name.id = n := by
  rw [x.holding_name, List.countP_pos_iff]
  simp only [decide_eq_true_eq]

/-- Inside of the store a name is held by hashes and by structures. -/
theorem Store.held_name_pos {s : Store} {n : NameId} :
    0 < s.held (.name n) ↔
      (∃ c r, s.referent? c = some r ∧ 0 < holding r.owned (.name n)) ∨
        ∃ p x, s.payload? p = some x ∧ 0 < holding x.owned (.name n) := by
  have hslot (y : Cell) : holding y.owned (.name n) = holding y.referent.owned (.name n) := by
    rw [Cell.owned, holding_append, Pi.add_apply]
    cases y.extension <;> rfl
  rw [held, Nat.add_pos_iff_pos_or_pos, Table.total_pos_iff, Table.total_pos_iff]
  simp only [hslot]
  constructor
  · rintro (⟨c, e, he, hpos⟩ | ⟨p, e, he, hpos⟩)
    · exact .inl ⟨c, _, by rw [referent?, cell?, he]; rfl, hpos⟩
    · exact .inr ⟨p, _, by rw [payload?, he]; rfl, hpos⟩
  · rintro (⟨c, r, hr, hpos⟩ | ⟨p, x, hx, hpos⟩)
    · obtain ⟨y, hy, rfl⟩ := Option.map_eq_some_iff.1 hr
      obtain ⟨e, he, rfl⟩ := Option.map_eq_some_iff.1 hy
      exact .inl ⟨c, e, he, hpos⟩
    · obtain ⟨e, he, rfl⟩ := Option.map_eq_some_iff.1 hx
      exact .inr ⟨p, e, he, hpos⟩

/-! ## Attached structures -/

namespace World

/-- What is in the extension slot of a cell. -/
def attachment? (w : World) (c : CellId) : Option Payload :=
  (w.store.extension? c).bind fun r => w.store.payload? r.payload

/-- The keys of the structures in extension slots. -/
def attachedKeys (w : World) : List Key :=
  w.store.cells.entries.flatMap fun e => ((w.attachment? e.1).map Payload.keys).getD []

/-- The names of slots and init-args in extension slots. -/
def attachedNames (w : World) : Finset String := (w.attachedKeys.map Key.text).toFinset

variable {w w' : World} {f : Holding} {c : CellId} {x : Payload} {k : Key}

theorem attachment?_eq_some_iff : w.attachment? c = some x ↔
    ∃ r, w.store.extension? c = some r ∧ w.store.payload? r.payload = some x :=
  Option.bind_eq_some_iff

theorem mem_attachedKeys : k ∈ w.attachedKeys ↔ ∃ c x, w.attachment? c = some x ∧ k ∈ x.keys := by
  simp only [attachedKeys, List.mem_flatMap]
  constructor
  · rintro ⟨⟨c, e⟩, -, hk⟩
    cases hx : w.attachment? c with
    | none =>
      rw [hx] at hk
      exact absurd hk List.not_mem_nil
    | some x =>
      rw [hx] at hk
      exact ⟨c, x, hx, hk⟩
  · rintro ⟨c, x, hx, hk⟩
    obtain ⟨r, hr, -⟩ := attachment?_eq_some_iff.1 hx
    obtain ⟨e, he⟩ := Option.isSome_iff_exists.1 (Store.alive_of_extension? hr)
    refine ⟨(c, e), Table.find?_eq_some_iff.1 he, ?_⟩
    rw [hx]
    exact hk

/-- What is attached stays attached to a cell that is not finalized, unless its slot is written. -/
theorem attachment?_of_kept (hcov : w'.Covers f) (hx : w.attachment? c = some x)
    (hslot : w'.store.extension? c = w.store.extension? c)
    (hpayload : ∀ p y, w.store.payload? p = some x → w'.store.payload? p = some y → y = x) :
    w'.attachment? c = some x := by
  obtain ⟨r, hr, hp⟩ := attachment?_eq_some_iff.1 hx
  have hr' := hslot.trans hr
  obtain ⟨y, hy⟩ := Option.isSome_iff_exists.1 (Store.Covers.payload_isSome hcov hr')
  exact attachment?_eq_some_iff.2 ⟨r, hr', hpayload _ y hp hy ▸ hy⟩

/-- The names of attached structures are there. -/
theorem nameAlive_of_attached (hcov : w.Covers f) (hx : w.attachment? c = some x)
    (hk : k ∈ x.keys) : w.store.nameAlive k.name := by
  obtain ⟨r, -, hp⟩ := attachment?_eq_some_iff.1 hx
  have hheld := Store.holding_payload_le_held hp (.name k.name.id)
  have hpos := Payload.holding_name_pos.2 ⟨k, hk, rfl⟩
  have hcount := hcov (.name k.name.id) rfl
  by_contra hgone
  rw [Store.count_of_not_has (x := .name k.name.id) hgone] at hcount
  omega

/-- The names are held by structures alone, and structures with these names by extension slots
alone. -/
structure Encloses (w : World) (f : Holding) (ns : List SharedName) : Prop where
  outside : ∀ n ∈ ns, (holding w.roots + f) (.name n.id) = 0
  referents : ∀ n ∈ ns, ∀ c r, w.store.referent? c = some r → holding r.owned (.name n.id) = 0
  payloads : ∀ p x, w.store.payload? p = some x →
    (∃ n ∈ ns, 0 < holding x.owned (.name n.id)) → (holding w.roots + f) (.payload p) = 0

/-- An enclosed name that is there is that of an attached structure. -/
theorem Encloses.exists_attached {ns : List SharedName} (h : w.Encloses f ns)
    (he : w.store.Exact (holding w.roots + f)) {n : SharedName} (hn : n ∈ ns)
    (halive : w.store.nameAlive n) : ∃ c x k, w.attachment? c = some x ∧ k ∈ x.keys ∧
      k.name.id = n.id := by
  have hname := (he.has_iff (x := .name n.id) rfl).1 halive
  rw [h.outside n hn, Nat.add_zero, Store.held_name_pos] at hname
  rcases hname with ⟨c, r, hr, hpos⟩ | ⟨p, x, hx, hpos⟩
  · rw [h.referents n hn c r hr] at hpos
    exact absurd hpos (Nat.lt_irrefl 0)
  · -- the structure is there as well, so that it is in a slot
    obtain ⟨e, hfind, -⟩ := Option.map_eq_some_iff.1 hx
    have hthere : w.store.has (.payload p) := Option.isSome_iff_exists.2 ⟨e, hfind⟩
    have hpayload := (he.has_iff (x := .payload p) rfl).1 hthere
    rw [h.payloads p x hx ⟨n, hn, hpos⟩, Nat.add_zero, Store.held_payload_pos] at hpayload
    obtain ⟨c, r, hr, rfl⟩ := hpayload
    obtain ⟨k, hk, hkn⟩ := Payload.holding_name_pos.1 hpos
    exact ⟨c, x, k, attachment?_eq_some_iff.2 ⟨r, hr, hx⟩, hk, hkn⟩

end World

end MetaCache
