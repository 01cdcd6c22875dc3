import MetaCache.Proofs.Custody.Estate
/-!
# What every act keeps

Whatever is done, no identity is used again, no payload changes, and the counts stay exact. A run
keeps what its acts keep.

* `Store.Ages`: what is gone stays gone, and payloads stay as they are; `Estate.ages`,
  `Estate.Run.ages`.
* `Estate.Exact`: an entry is there exactly if there is a strong share of it; `Estate.Exact.after`,
  `Estate.Exact.run`.
* `Estate.has_after_of_ne_fall`, `Estate.fall_of_gone`: nothing goes but by the last share of it
  that is given back.
* `Estate.Run.has_iff`: what was there in the beginning is there exactly if somebody has had a
  strong share of it at every moment since.
-/

namespace MetaCache

namespace Store

variable {s s' s'' : Store}

/-- No identity is used again, and what is still there of the payloads is as it was. -/
structure Ages (s s' : Store) : Prop where
  old : ∀ x : Share, x.OldIn s → x.OldIn s'
  has : ∀ x : Share, x.OldIn s → s'.has x → s.has x
  payload? : ∀ p < s.payloads.next, s'.has (.payload p) → s'.payload? p = s.payload? p

namespace Ages

theorem refl (s : Store) : s.Ages s := ⟨fun _ h => h, fun _ _ h => h, fun _ _ _ => rfl⟩

theorem trans (h : s.Ages s') (h' : s'.Ages s'') : s.Ages s'' where
  old x hx := h'.old x (h.old x hx)
  has x hx hh := h.has x hx (h'.has x (h.old x hx) hh)
  payload? p hp hh :=
    have hold := h.old (.payload p) hp
    (h'.payload? p hold hh).trans (h.payload? p hp (h'.has (.payload p) hold hh))

/-- One entry more, which had no identity before. -/
theorem grow {y : Share} (hold : ∀ x : Share, x.OldIn s → x.OldIn s') (hy : ¬ y.OldIn s)
    (hhas : ∀ x : Share, x.isStrong → x ≠ y → s'.has x = s.has x)
    (hp : ∀ p < s.payloads.next, s'.payload? p = s.payload? p) : s.Ages s' where
  old := hold
  has x hx hh := by
    have hs : x.entry.isStrong := by cases x <;> rfl
    rw [← has_entry] at hh ⊢
    rwa [hhas _ hs fun hxy => hy (hxy ▸ (x.oldIn_entry s).2 hx)] at hh
  payload? p hlt _ := hp p hlt

theorem record (h : s.Ages s') (ev : Event) : s.Ages (s'.record ev) :=
  ⟨h.old, h.has, h.payload?⟩

end Ages

theorem oldIn_remove (s : Store) (x y : Share) : y.OldIn (s.remove x) ↔ y.OldIn s := by
  cases x <;> rfl

theorem ages_adjust (s : Store) (k : Nat → Nat) (x : Share) : s.Ages (s.adjust k x) where
  old y hy := (s.oldIn_adjust k x y).2 hy
  has y _ hh := (s.has_adjust k x y).symm.trans hh
  payload? p _ _ := s.payload?_adjust k x p

theorem ages_retain (s : Store) (os : List Owned) : s.Ages (s.retain os) :=
  retain_induction (P := s.Ages) (fun t x h => h.trans (t.ages_adjust _ x)) (.refl s) os

theorem ages_remove {x : Share} (hx : x.isStrong) (s : Store) : s.Ages (s.remove x) where
  old y hy := (s.oldIn_remove x y).2 hy
  has _ _ hh := (has_of_has_remove hx hh).1
  payload? _ _ hh := payload?_remove_of_ne fun hp => not_has_remove_self (s := s) hx (hp ▸ hh)

/-- An entry that goes when a share is given back was held by that share alone. -/
theorem releaseOne_of_last {s : Store} {o : Owned} {x : Share} (hx : x.isStrong)
    (hs : s.has x) (hgone : ¬ (s.releaseOne o).2.has x) :
    o.plain? = some x ∧ s.releaseOne o = (s.inside x, s.remove x) ∧ s.count x ≤ 1 := by
  cases ho : o.plain? with
  | none =>
    obtain ⟨p, rfl⟩ := Owned.exists_of_plain?_eq_none ho
    exact absurd hs hgone
  | some y =>
    rcases releaseOne_cases ho s with ⟨hr, -⟩ | ⟨hr, -⟩ | ⟨hr, hy, -, hone⟩
    · rw [hr] at hgone
      exact absurd hs hgone
    · rw [hr, has_adjust] at hgone
      exact absurd hs hgone
    · by_cases hxy : x = y
      · subst hxy
        exact ⟨rfl, hr, hone⟩
      · have hkept := (remove_of_ne (s := s) (x := y) (y := x) <| by
          rwa [Share.entry_of_isStrong hx]).1
        rw [hr, hkept] at hgone
        exact absurd hs hgone

theorem ages_releaseOne (s : Store) (o : Owned) : s.Ages (s.releaseOne o).2 := by
  cases ho : o.plain? with
  | none =>
    obtain ⟨p, rfl⟩ := Owned.exists_of_plain?_eq_none ho
    exact (Ages.refl s).record _
  | some x =>
    rcases releaseOne_cases ho s with ⟨hr, -⟩ | ⟨hr, -⟩ | ⟨hr, hx, -⟩
    · rw [hr]
      exact .refl s
    · rw [hr]
      exact s.ages_adjust (· - 1) x
    · rw [hr]
      exact ages_remove hx s

theorem has_writeCell (s : Store) (c : CellId) (k : Cell → Cell) (x : Share) :
    (s.writeCell c k).has x = s.has x := by
  cases x with
  | cell d | weakCell d => exact Table.contains_modify s.cells c d _
  | _ => rfl

theorem ages_writeCell (s : Store) (c : CellId) (k : Cell → Cell) : s.Ages (s.writeCell c k) where
  old x hx := by cases x <;> exact hx
  has x _ hh := (s.has_writeCell c k x).symm.trans hh
  payload? _ _ _ := rfl

theorem ages_newCell (s : Store) (r : Referent) : s.Ages (s.newCell r).2 :=
  .grow (y := .cell s.cells.next)
    (fun x hx => by cases x <;> first | exact Nat.lt_succ_of_lt hx | exact hx)
    (Nat.lt_irrefl s.cells.next) (fun _ hx hne => has_newCell_of_ne r hx hne) fun _ _ => rfl

theorem ages_newName (s : Store) (text : String) : s.Ages (s.newName text).2 :=
  .grow (y := .name s.names.next)
    (fun x hx => by cases x <;> first | exact Nat.lt_succ_of_lt hx | exact hx)
    (Nat.lt_irrefl s.names.next) (fun _ _ hne => has_newName_of_ne text hne) fun _ _ => rfl

theorem ages_newPayload (s : Store) (p : Payload) : s.Ages (s.newPayload p).2 :=
  .grow (y := .payload s.payloads.next)
    (fun x hx => by cases x <;> first | exact Nat.lt_succ_of_lt hx | exact hx)
    (Nat.lt_irrefl s.payloads.next) (fun _ hx hne => has_newPayload_of_ne p hx hne)
    fun _ hq => payload?_newPayload_of_lt hq p

end Store

theorem KeyTable.ages_intern (hash : String → UInt32) (name : String) (t : KeyTable) (s : Store) :
    s.Ages (t.intern hash name s).2.2 := by
  have hs : s.Ages (t.sweepIfDue s).2 := by
    unfold sweepIfDue
    split
    · exact (Store.Ages.refl s).record _
    · exact .refl s
  simp only [intern, internInBucket]
  split
  · split
    · exact hs.trans (Store.ages_retain _ _)
    · split
      · exact hs.trans (Store.ages_newName _ name)
      · exact (hs.trans (Store.ages_newName _ name)).record _
  · exact (hs.record _).trans (Store.ages_newName _ name)

/-- A key asked for is counted. -/
theorem KeyTable.exact_intern {s : Store} {f : Holding} (h : s.Exact f) (hash : String → UInt32)
    (name : String) (t : KeyTable) :
    (t.intern hash name s).2.2.Exact (holding (t.intern hash name s).1.owned + f) := by
  have hrec {s' : Store} {g : Holding} (hs : s'.Exact g) (ev : Event) : (s'.record ev).Exact g :=
    ⟨hs.count, hs.attended⟩
  have hs : (t.sweepIfDue s).2.Exact f := by
    unfold sweepIfDue
    split
    · exact hrec h _
    · exact h
  simp only [intern, internInBucket]
  split
  · split
    · rename_i n hn
      have hlive : (t.sweepIfDue s).2.nameAlive n :=
        (List.mem_filter.1 (List.mem_of_find?_eq_some hn)).2
      exact hs.retain fun o ho => by rw [List.mem_singleton.1 ho]; exact hlive
    · split
      · exact hs.newName name
      · exact hrec (hs.newName name) _
  · exact (hrec hs _).newName name

namespace Estate

variable {hash : String → UInt32} {e d : Estate} {ts : List Turn} {a : Act}

theorem ages_rewrite (e : Estate) (c : CellId) (r : Referent) :
    e.store.Ages (e.rewrite c r).store :=
  e.store.ages_writeCell c fun x => { x with referent := r }

theorem ages (hash : String → UInt32) (e : Estate) (a : Act) :
    e.store.Ages (e.after hash a).store := by
  cases a with
  | share os | shareKey k => exact e.store.ages_retain _
  | drop os => exact .refl _
  | fall =>
    rw [after]
    split
    · exact .refl _
    · exact e.store.ages_releaseOne _
  | newCell r => exact e.store.ages_newCell r
  | newPayload p => exact e.store.ages_newPayload p
  | newKey name => exact e.store.ages_newName name
  | intern name => exact KeyTable.ages_intern hash name e.table e.store
  | sweep | note n => exact (Store.Ages.refl _).record _
  | write c r => exact e.ages_rewrite c r
  | put c slot v | remove c slot => exact e.ages_rewrite c _
  | attach c r? => exact e.store.ages_writeCell c fun x => { x with extension := r? }

theorem Run.ages (h : e.Run hash ts d) : e.store.Ages d.store := by
  induction h with
  | refl => exact .refl _
  | snoc _ _ ih => exact ih.trans (Estate.ages hash _ _)

/-! ## Exact counts -/

/-- The counts are those of the shares that there are. -/
def Exact (e : Estate) : Prop := e.store.Exact (holding e.falling + e.hand)

namespace Exact

variable {x : Share}

theorem empty : Exact {} := Store.Exact.empty

/-- An entry is there exactly if there is a strong share of it. -/
theorem has_iff (h : e.Exact) (hx : x.isStrong) : e.store.has x ↔ 0 < e.owners x :=
  Store.Exact.has_iff h hx

theorem rewrite (h : e.store.Exact e.hand) {c : CellId} {r : Referent} (ha : e.Affords c r) :
    (e.rewrite c r).store.Exact (e.rewrite c r).hand := by
  obtain ⟨y, hy⟩ := Store.alive_iff_cell?.1 ha.alive
  refine h.writeCell (k := fun y => { y with referent := r }) hy fun x => ?_
  have howned : e.store.ownedAt c = y.referent.owned := by
    rw [Store.ownedAt, Store.referent?, hy]
    rfl
  have hle := ha.le x
  rw [howned] at hle
  simp only [Estate.rewrite, howned, Cell.owned, holding_append, Pi.add_apply, Pi.sub_apply]
  omega

theorem attach (h : e.store.Exact e.hand) {c : CellId} {r? : Option Record}
    (hc : e.store.alive c) (hr : e.Has (ownedByRecord? r?)) :
    (e.store.setExtension c r?).Exact
      (holding (ownedByRecord? (e.store.extension? c)) +
        (e.hand - holding (ownedByRecord? r?))) := by
  obtain ⟨y, hy⟩ := Store.alive_iff_cell?.1 hc
  refine h.writeCell hy fun x => ?_
  have hle := hr x
  rw [Store.extension?, hy, Option.bind_some]
  simp only [Cell.owned, holding_append, Pi.add_apply, Pi.sub_apply]
  omega

/-- What is in the hand can be put aside. -/
theorem aside (h : e.store.Exact e.hand) {os : List Owned} (ho : e.Has os) :
    e.store.Exact (holding os + (e.hand - holding os)) :=
  h.congr fun x _ => Nat.add_sub_cancel' (ho x)

/-- Every act keeps the counts exact. -/
theorem after (h : e.Exact) (ha : e.Allows a) : (e.after hash a).Exact := by
  by_cases hfall : a = .fall
  · subst hfall
    show Store.Exact _ _
    rw [Estate.after]
    split
    · exact h
    · rename_i o rest hrest
      rw [Exact, hrest, holding_cons, add_assoc] at h
      have hone := h.releaseOne
      rw [← add_assoc, ← holding_append] at hone
      exact hone
  · -- nothing is being given back, so all that is held outside is in the hand
    have hnil : e.falling = [] := by
      by_contra hne
      exact hfall (ha.turn.1 hne)
    have hand : e.store.Exact e.hand := by
      rwa [Exact, hnil, holding_nil, zero_add] at h
    have hfits := ha.fits
    -- the same for the estate after the act
    have settled {d : Estate} (hd : d.falling = e.falling) (hx : d.store.Exact d.hand) :
        d.Exact := by
      rw [Exact, hd, hnil, holding_nil, zero_add]
      exact hx
    cases a with
    | share os => exact settled rfl (hand.retain hfits)
    | drop os => exact aside hand hfits
    | fall => exact absurd rfl hfall
    | newCell r => exact settled rfl (aside hand hfits.1).newCell
    | newPayload p => exact settled rfl (aside hand hfits).newPayload
    | newKey name => exact settled rfl (hand.newName name)
    | shareKey k =>
      refine settled rfl (hand.retain fun o ho => ?_)
      rw [List.mem_singleton.1 ho]
      exact hfits.2
    | intern name => exact settled rfl (KeyTable.exact_intern hand hash name e.table)
    | sweep => exact settled rfl ⟨hand.count, hand.attended⟩
    | write c r => exact settled rfl (rewrite hand hfits.1)
    | put c slot v => exact settled rfl (rewrite hand hfits.2.2)
    | remove c slot => exact settled rfl (rewrite hand hfits.2.2)
    | attach c r? => exact settled rfl (attach hand hfits.1 hfits.2)
    | note n => exact settled rfl ⟨hand.count, hand.attended⟩

theorem run (h : e.Exact) (hr : e.Run hash ts d) : d.Exact := by
  induction hr with
  | refl => exact h
  | snoc _ ha ih => exact ih.after ha

end Exact

/-! ## How something goes -/

/-- No act but a fall takes an entry away. -/
theorem has_after_of_ne_fall {x : Share} (hx : x.isStrong) (ha : a ≠ .fall)
    (h : e.store.has x) : (e.after hash a).store.has x := by
  have hold := Store.oldIn_of_has h
  have has_newName {s : Store} (text : String) (hs : s.has x) (hn : x.OldIn s) :
      (s.newName text).2.has x := by
    refine (Store.has_newName_of_ne text fun hxn => ?_).trans hs
    subst hxn
    exact Nat.lt_irrefl s.names.next hn
  cases a with
  | share os | shareKey k => exact (Store.has_retain _ _ _).trans h
  | fall => exact absurd rfl ha
  | newCell r =>
    exact (Store.has_newCell_of_ne r hx fun hxn =>
      Nat.lt_irrefl e.store.cells.next (by subst hxn; exact hold)).trans h
  | newPayload p =>
    exact (Store.has_newPayload_of_ne p hx fun hxn =>
      Nat.lt_irrefl e.store.payloads.next (by subst hxn; exact hold)).trans h
  | newKey name => exact has_newName name h hold
  | intern name =>
    have hs : (e.table.sweepIfDue e.store).2.has x ∧ x.OldIn (e.table.sweepIfDue e.store).2 := by
      unfold KeyTable.sweepIfDue
      split <;> exact ⟨h, hold⟩
    show (e.table.intern hash name e.store).2.2.has x
    simp only [KeyTable.intern, KeyTable.internInBucket]
    split
    · split
      · exact (Store.has_retain _ _ _).trans hs.1
      · split <;> exact has_newName name hs.1 hs.2
    · exact has_newName name hs.1 hs.2
  | write c r | put c slot v | remove c slot | attach c r? =>
    exact (Store.has_writeCell _ _ _ _).trans h
  | _ => exact h

/-- An entry goes when the only share of it that is left is given back. What it held is given back
next. -/
theorem fall_of_gone {x : Share} (h : e.Exact) (ha : e.Allows a) (hx : x.isStrong)
    (hs : e.store.has x) (hgone : ¬ (e.after hash a).store.has x) :
    a = .fall ∧ e.owners x = 1 ∧ ∃ o rest, o.plain? = some x ∧ e.falling = o :: rest ∧
      (e.after hash a).falling = e.store.inside x ++ rest := by
  have hfall : a = .fall := by
    by_contra hne
    exact hgone (has_after_of_ne_fall hx hne hs)
  subst hfall
  obtain ⟨o, rest, hrest⟩ := List.exists_cons_of_ne_nil (ha.turn.2 rfl)
  rw [after_fall hash e hrest] at hgone ⊢
  obtain ⟨ho, hr, hone⟩ := Store.releaseOne_of_last hx hs hgone
  have howners : e.store.count x = e.owners x := h.count x hx
  have hpos : 0 < e.owners x := (h.has_iff hx).1 hs
  exact ⟨rfl, by omega, o, rest, ho, hrest, by rw [hr]⟩

/-- What was there in the beginning is there exactly if somebody has had a strong share of it at
every moment since. -/
theorem Run.has_iff (hr : e.Run hash ts d) (h : e.Exact) {x : Share} (hx : x.isStrong)
    (hold : x.OldIn e.store) :
    d.store.has x ↔ Throughout (fun m => 0 < m.owners x) ts d := by
  constructor
  · intro hd
    refine Throughout.of_end hr (fun hr' ha hpos => ?_) (((h.run hr).has_iff hx).1 hd)
    have hexact := h.run hr'
    exact (hexact.has_iff hx).1 ((Estate.ages hash _ _).has x (hr'.ages.old x hold)
      (((hexact.after ha).has_iff hx).2 hpos))
  · exact fun ht => ((h.run hr).has_iff hx).2 ht.2

end Estate

end MetaCache
