import MetaCache.Proofs.Custody.Bypasses
import MetaCache.Proofs.Custody.Holders
import MetaCache.Proofs.Custody.Misses
/-!
# A key table at rest

Between the operations of a caller who drops what he gets, the key table has exactly the names of
the structures that are in extension slots. A discard keeps it so, as it drops the structure before
it sweeps, and a lookup does, as a compilation that succeeds uses every key that it is given.

* `World.Settled`: the invariant; `World.Settled.counts`: what it says about the size of the table.
* `World.Settled.discard`, `World.Settled.bypass`, `World.Built.settled`: discards, what is done
  past the cache, and compilations keep it.
-/

namespace MetaCache.World

variable {host : Host} {w w' w₁ w₂ : World} {f f' : Holding} {c : CellId}

/-- The key table has the names of attached structures and no others, nobody else holds these names,
and all is counted. -/
structure Settled (w : World) (f : Holding) : Prop extends w.Sane f where
  shares : w.cache.config.shareSlotKeys
  table : w.cache.keys.Ordered w.cache.nameHash w.store
  live : ∀ n ∈ w.cache.keys.names, w.store.nameAlive n
  filed : ∀ k ∈ w.attachedKeys, k.name ∈ w.cache.keys.names
  encloses : w.Encloses f w.cache.keys.names

namespace Settled

/-- Each entry is the name of a key that is attached. -/
theorem exists_attached (h : w.Settled f) {n : SharedName} (hn : n ∈ w.cache.keys.names) :
    ∃ c x k, w.attachment? c = some x ∧ k ∈ x.keys ∧ k.name = n := by
  obtain ⟨c, x, k, hx, hk, hid⟩ := h.encloses.exists_attached h.exact hn (h.live n hn)
  exact ⟨c, x, k, hx, hk, h.table.ids _ (h.filed k (mem_attachedKeys.2 ⟨c, x, hx, hk⟩)) n hn hid⟩

theorem texts_eq (h : w.Settled f) :
    (w.cache.keys.names.map SharedName.text).toFinset = w.attachedNames := by
  ext text
  simp only [attachedNames, List.mem_toFinset, List.mem_map]
  constructor
  · rintro ⟨n, hn, rfl⟩
    obtain ⟨c, x, k, hx, hk, rfl⟩ := h.exists_attached hn
    exact ⟨k, mem_attachedKeys.2 ⟨c, x, hx, hk⟩, rfl⟩
  · rintro ⟨k, hk, rfl⟩
    exact ⟨k.name, h.filed k hk, rfl⟩

/-- The table has as many entries as there are different names in attached structures, and somebody
holds each of them. -/
theorem counts (h : w.Settled f) :
    w.cache.keys.tracked = w.liveNames ∧ w.liveNames = w.attachedNames.card := by
  refine ⟨h.table.tracked_eq h.live, ?_⟩
  rw [← h.texts_eq, h.table.card_texts h.live, liveNames]

/-- The entries stay alive as long as the structures stay attached. -/
theorem nameAlive_of_kept (h : w.Settled f) (hcov : w'.Covers f')
    (hkept : ∀ c x, w.attachment? c = some x → w'.attachment? c = some x) {n : SharedName}
    (hn : n ∈ w.cache.keys.names) : w'.store.nameAlive n := by
  obtain ⟨c, x, k, hx, hk, rfl⟩ := h.exists_attached hn
  exact nameAlive_of_attached hcov (hkept c x hx) hk

/-! ## Discards -/

/-- What was in the slot is gone with its names, and the table is swept after that. -/
theorem discard (h : w.Settled f) {r : Record} (hr : w.store.extension? c = some r) (n : Note) :
    (w.discard c r n).Settled f := by
  have hsheds := w.sheds_discard c r n
  have hkeeps := w.keeps_discard c r n
  have hexact : (w.discard c r n).store.Exact (holding (w.discard c r n).roots + f) := by
    have hm := (w.minds_discard (S := fun _ _ => True) hr n).frame f
    rw [zero_add] at hm
    exact hm.exact h.exact
  have hages : w.store.Ages (((w.store.note n).setExtension c none).release r.owned) :=
    (((Store.Ages.refl _).record _).trans (Store.ages_writeCell _ c _)).trans
      (Store.ages_release _ _)
  have hsub : ∀ m ∈ (w.discard c r n).cache.keys.names, m ∈ w.cache.keys.names :=
    fun m hm => KeyTable.mem_names_sweep hm
  have hnames : (w.discard c r n).cache.keys.names =
      w.cache.keys.names.filter (w.discard c r n).store.nameAlive := KeyTable.names_sweep ..
  constructor
  case toSane => exact h.of_kept hexact rfl fun d _ hd => hkeeps.referent?_eq hd
  case shares => exact h.shares
  case table => exact (h.table.ages hages).sweep
  case live =>
    intro m hm
    rw [hnames] at hm
    exact (List.mem_filter.1 hm).2
  case filed =>
    intro k hk
    obtain ⟨d, x, hx, hkx⟩ := mem_attachedKeys.1 hk
    obtain ⟨q, hq, hp⟩ := attachment?_eq_some_iff.1 hx
    have hslot := extension?_discard (Store.alive_of_extension? hq)
    rw [hq] at hslot
    split at hslot
    · cases hslot
    · -- it was in that slot before
      have hbefore : w.attachment? d = some x :=
        attachment?_eq_some_iff.2 ⟨q, hslot.symm, hsheds.payload? _ _ hp⟩
      rw [hnames, List.mem_filter]
      exact ⟨h.filed k (mem_attachedKeys.2 ⟨d, x, hbefore, hkx⟩),
        nameAlive_of_attached hexact.covers hx hkx⟩
  case encloses =>
    constructor
    case outside => exact fun m hm => h.encloses.outside m (hsub m hm)
    case referents =>
      exact fun m hm d q hq => h.encloses.referents m (hsub m hm) d q (hkeeps.referent? d q hq)
    case payloads =>
      rintro p x hx ⟨m, hm, hpos⟩
      exact h.encloses.payloads p x (hsheds.payload? p x hx) ⟨m, hsub m hm, hpos⟩

/-! ## Past the cache -/

/-- What bypasses the cache and finalizes no cell whose slot is filled. -/
theorem bypass (h : w.Settled f) (hb : w.Bypasses f w' f')
    (hkept : ∀ c, (w.store.extension? c).isSome → w'.store.alive c) : w'.Settled f' := by
  have hcov : w'.Covers f' := hb.sane.covers
  have hcache : w'.cache.config = w.cache.config ∧ w'.cache.nameHash = w.cache.nameHash := by
    have hset := hb.settings
    simp only [Cache.settings, Prod.mk.injEq] at hset
    exact ⟨hset.1, hset.2.2⟩
  have hattached : ∀ c x, w.attachment? c = some x → w'.attachment? c = some x := by
    intro c x hx
    obtain ⟨r, hr, -⟩ := attachment?_eq_some_iff.1 hx
    have halive := hkept c (Option.isSome_iff_exists.2 ⟨r, hr⟩)
    refine attachment?_of_kept hcov hx (hb.slots c halive) fun p y hp hy => ?_
    exact Option.some.inj ((hb.payloads p y hy).symm.trans hp)
  constructor
  case toSane => exact hb.sane
  case shares => rw [hcache.1]; exact h.shares
  case table => rw [hb.keys, hcache.2]; exact h.table.ages hb.ages
  case live =>
    rw [hb.keys]
    exact fun n hn => h.nameAlive_of_kept hcov hattached hn
  case filed =>
    intro k hk
    obtain ⟨c, x, hx, hkx⟩ := mem_attachedKeys.1 hk
    obtain ⟨r, hr, hp⟩ := attachment?_eq_some_iff.1 hx
    have hslot := hb.slots c (Store.alive_of_extension? hr)
    rw [hb.keys]
    exact h.filed k (mem_attachedKeys.2 ⟨c, x, attachment?_eq_some_iff.2
      ⟨r, hslot.symm.trans hr, hb.payloads _ _ hp⟩, hkx⟩)
  case encloses =>
    rw [hb.keys]
    constructor
    case outside => exact fun n hn => hb.outside _ rfl (h.encloses.outside n hn)
    case referents => exact fun n hn => hb.referents _ (h.encloses.referents n hn)
    case payloads =>
      exact fun p x hx hn => hb.outside _ rfl (h.encloses.payloads p x (hb.payloads p x hx) hn)

/-! ## Compilations -/

/-- What is held is there. -/
theorem has_of_outside (h : w.Settled f) {x : Share} (hx : x.isStrong)
    (hpos : 0 < (holding w.roots + f) x) : w.store.has x :=
  (h.exact.has_iff hx).2 (Nat.add_pos_right _ hpos)

end Settled

theorem ages_publish (w : World) (c : CellId) (x : Payload) (generation : Nat) (governor : CellId) :
    w.store.Ages (w.publish c x generation governor).2.store :=
  ((((w.store.ages_newPayload x).trans (Store.ages_retain _ _)).trans
    (Store.ages_writeCell _ c _)).record _).trans (Store.ages_release _ _)

/-- In `w₁`, where the slot of `c` is empty and `f` is held, `x` is compiled. Then, in `w₂`, it is
put into the slot, and the handle on it is dropped. -/
structure Built (host : Host) (w₁ : World) (f : Holding) (c : CellId) (x : Payload)
    (generation : Nat) (governor : CellId) (w₂ w' : World) : Prop where
  empty : w₁.store.extension? c = none
  ongoing : Ongoing w₁ f w₂ (holding [.held x])
  quiet : host.Quiet w₁ 0 w₂ (holding [.held x])
  entered : w₁.Entered x.keys w₂
  roots : w₂.roots = w₁.roots
  dropped : w' = (w₂.publish c x generation governor).2.onStore
    (·.release [.payload w₂.store.payloads.next])

namespace Built

variable {x : Payload} {generation : Nat} {governor : CellId}
  (hb : Built host w₁ f c x generation governor w₂ w')

include hb

theorem keeps : w₂.store.Keeps w'.store := by
  rw [hb.dropped]
  exact (w₂.keeps_publish c x generation governor).trans (Store.sheds_release _ _).keeps

theorem ages : w₂.store.Ages w'.store := by
  rw [hb.dropped]
  exact (w₂.ages_publish c x generation governor).trans (Store.ages_release _ _)

/-- One slot has been filled, and no other one was touched. -/
theorem slot {d : CellId} (hd : w'.store.alive d) : w'.store.extension? d =
    if d = c then some { payload := w₂.store.payloads.next, generation, governor }
    else w₁.store.extension? d := by
  have hd₂ := hb.keeps.alive hd
  rw [hb.dropped] at hd ⊢
  have hsheds := Store.sheds_release (w₂.publish c x generation governor).2.store
    [.payload w₂.store.payloads.next]
  have hpublished := extension?_publish (hsheds.alive hd)
  rw [hb.quiet.extension? hd₂] at hpublished
  exact (hsheds.extension?_eq hd).trans hpublished

/-- What was there before the compilation is as it was. -/
theorem payload?_of_old {p : PayloadId} {y : Payload} (hp : p < w₁.store.payloads.next)
    (hy : w'.store.payload? p = some y) : w₁.store.payload? p = some y := by
  rw [← hb.ongoing.payload? p hp]
  exact hb.keeps.payload? p y (hb.ongoing.old (.payload p) hp) hy

theorem referent?_of_old {d : CellId} {r : Referent} (hd : d < w₁.store.cells.next)
    (hr : w'.store.referent? d = some r) : w₁.store.referent? d = some r := by
  rw [Store.referent?, ← hb.ongoing.cell? d hd]
  exact hb.keeps.referent? d r hr

theorem attached (hcov : w'.Covers f') (hc : w'.store.alive c) : w'.attachment? c = some x := by
  have hslot := hb.slot hc
  rw [if_pos rfl] at hslot
  obtain ⟨y, hy⟩ := Option.isSome_iff_exists.1 (Store.Covers.payload_isSome hcov hslot)
  have hyx : y = x := by
    rw [hb.dropped] at hy
    exact payload?_publish ((Store.sheds_release _ _).payload? _ _ hy)
  exact attachment?_eq_some_iff.2 ⟨_, hslot, hyx ▸ hy⟩

/-- The other structures stay attached to cells that are not finalized. -/
theorem attached_of_kept (hcov : w'.Covers f')
    (hkept : ∀ d, (w₁.store.extension? d).isSome → w'.store.alive d) {d : CellId} {y : Payload}
    (hy : w₁.attachment? d = some y) : w'.attachment? d = some y := by
  obtain ⟨r, hr, -⟩ := attachment?_eq_some_iff.1 hy
  have hslot := hb.slot (hkept d (Option.isSome_iff_exists.2 ⟨r, hr⟩))
  rw [if_neg fun hdc => by rw [hdc, hb.empty] at hr; cases hr] at hslot
  refine attachment?_of_kept hcov hy hslot fun p z hp hz => ?_
  obtain ⟨e, he, -⟩ := Option.map_eq_some_iff.1 hp
  exact Option.some.inj ((hb.payload?_of_old (Table.lt_next_of_find? he) hz).symm.trans hp)

/-- An entry of the key table that was there before the compilation was an entry then. -/
theorem mem_of_alive {n : SharedName} (hn : n ∈ w₂.cache.keys.names)
    (halive : w₁.store.nameAlive n) : n ∈ w₁.cache.keys.names := by
  have hmem : n ∈ w₂.cache.keys.names.filter w₁.store.nameAlive := List.mem_filter.2 ⟨hn, halive⟩
  rw [hb.ongoing.table] at hmem
  exact (List.mem_filter.1 hmem).1

/-- The names that are entered are held by what was compiled and by attached structures alone. -/
theorem encloses (h : w₁.Settled f) : w'.Encloses f w'.cache.keys.names := by
  have hroots : w'.roots = w₁.roots := by rw [hb.dropped, ← hb.roots]; rfl
  have hkeys : w'.cache.keys = w₂.cache.keys := by rw [hb.dropped]; rfl
  -- what held a name before the compilation held one of the table
  have hmem {n : SharedName} (hn : n ∈ w₂.cache.keys.names)
      (hpos : 0 < w₁.store.held (.name n.id) + (holding w₁.roots + f) (.name n.id)) :
      n ∈ w₁.cache.keys.names := hb.mem_of_alive hn ((h.exact.has_iff (x := .name n.id) rfl).2 hpos)
  rw [hkeys]
  constructor
  case outside =>
    intro n hn
    rw [hroots]
    by_contra hpos
    exact hpos (h.encloses.outside n
      (hmem hn (Nat.add_pos_right _ (Nat.pos_of_ne_zero hpos))))
  case referents =>
    intro n hn d r hr
    by_contra hpos
    by_cases hold : d < w₁.store.cells.next
    · have hr₁ := hb.referent?_of_old hold hr
      have hheld := Store.held_name_pos.2 (.inl ⟨d, r, hr₁, Nat.pos_of_ne_zero hpos⟩)
      exact hpos (h.encloses.referents n (hmem hn (Nat.add_pos_left hheld _)) d r hr₁)
    · -- a cell that was made meanwhile
      obtain ⟨y, hy, rfl⟩ := Option.map_eq_some_iff.1 (hb.keeps.referent? d r hr)
      have hinside : 0 < holding (w₂.store.inside (.cell d)) (.name n.id) := by
        rw [Store.inside, hy]
        show 0 < holding y.owned _
        rw [Cell.owned, holding_append]
        exact Nat.add_pos_left (Nat.pos_of_ne_zero hpos) _
      exact (hb.ongoing.young (.cell d) hold _ hinside).2 (.inr ⟨n, hn, rfl⟩)
  case payloads =>
    rintro p y hy ⟨n, hn, hname⟩
    rw [hroots]
    by_contra hpos
    have hthere := h.has_of_outside (x := .payload p) rfl (Nat.pos_of_ne_zero hpos)
    have hy₁ := hb.payload?_of_old (Store.oldIn_of_has hthere) hy
    have hheld := Store.held_name_pos.2 (.inr ⟨p, y, hy₁, hname⟩)
    exact hpos (h.encloses.payloads p y hy₁ ⟨n, hmem hn (Nat.add_pos_left hheld _), hname⟩)

/-- A compilation that succeeds leaves the key table at rest, if no cell whose slot is filled is
finalized. -/
theorem settled (h : w₁.Settled f) (he : w'.store.Exact (holding w'.roots + f))
    (hc : w'.store.alive c)
    (hkept : ∀ d, (w₁.store.extension? d).isSome → w'.store.alive d) : w'.Settled f := by
  have hcov : w'.Covers f := he.covers
  have hcache : w'.cache.keys = w₂.cache.keys ∧ w'.cache.config = w₂.cache.config ∧
      w'.cache.nameHash = w₂.cache.nameHash ∧ w'.registry = w₂.registry := by
    rw [hb.dropped]
    exact ⟨rfl, rfl, rfl, rfl⟩
  obtain ⟨hkeys, hconfig, hhash, hreg⟩ := hcache
  have hkeyAlive {k : Key} (hk : k ∈ x.keys) : w'.store.nameAlive k.name :=
    nameAlive_of_attached hcov (hb.attached hcov hc) hk
  constructor
  case toSane =>
    refine h.of_kept he (hreg ▸ hb.quiet.classes) fun d hd hd' => ?_
    obtain ⟨r, hr⟩ := Store.alive_iff_referent?.1 hd'
    rw [hr, hb.referent?_of_old (Store.lt_next_of_alive hd) hr]
  case shares => rw [hconfig]; exact hb.entered.shares
  case table => rw [hkeys, hhash]; exact hb.entered.table.ages hb.ages
  case live =>
    rw [hkeys]
    intro n hn
    rcases hb.entered.listed n hn with hn | ⟨k, hk, rfl⟩
    · exact h.nameAlive_of_kept hcov (fun d y => hb.attached_of_kept hcov hkept) hn
    · exact hkeyAlive hk
  case filed =>
    intro k hk
    obtain ⟨d, y, hy, hky⟩ := mem_attachedKeys.1 hk
    -- it is listed, and it is there
    have hlisted : w₁.Listed x.keys k.name := by
      by_cases hdc : d = c
      · subst hdc
        cases (hb.attached hcov hc).symm.trans hy
        exact .inr ⟨k, hky, rfl⟩
      · obtain ⟨r, hr, hp⟩ := attachment?_eq_some_iff.1 hy
        have hslot := hb.slot (Store.alive_of_extension? hr)
        rw [if_neg hdc, hr] at hslot
        obtain ⟨z, hz⟩ := Option.isSome_iff_exists.1
          (Store.Covers.payload_isSome h.covers hslot.symm)
        have hbefore : w₁.attachment? d = some z := attachment?_eq_some_iff.2 ⟨r, hslot.symm, hz⟩
        cases (hb.attached_of_kept hcov hkept hbefore).symm.trans hy
        exact .inl (h.filed k (mem_attachedKeys.2 ⟨d, y, hbefore, hky⟩))
    rw [hkeys]
    exact hb.entered.kept _ hlisted
      (hb.ages.has _ (hb.entered.known _ hlisted) (nameAlive_of_attached hcov hy hky))
  case encloses => exact hb.encloses h

end Built

end MetaCache.World
